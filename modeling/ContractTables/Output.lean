import ContractTables.Project
import ContractTables.Tables.Document

/-!
What a run leaves behind. A run first settles all it will write, reading as it goes, and
only then makes directories and writes files, in order and up to the first that fails.
-/
namespace ContractTables

inductive OutputStep where
  | makeDirs (path : String)
  | write (path content : String)

structure Output where
  steps : List OutputStep
  printed : String

namespace OutputStep

def carryOut? (disk : Disk) : OutputStep → Option Disk
  | makeDirs path => disk.makeDirs? path
  | write path content => disk.write? path content

def failure : OutputStep → Failure
  | makeDirs path => .unmadeDirectory path
  | write path _ => .unwritten path

/-- The disk after the steps, and the failure that stopped them. -/
def carryOutAll (disk : Disk) : List OutputStep → Disk × Option Failure
  | [] => (disk, none)
  | step :: rest =>
      match step.carryOut? disk with
      | some next => carryOutAll next rest
      | none => (disk, some step.failure)

end OutputStep

def objectsPath (directory name : String) : String :=
  Path.entry directory ("contract_objects_" ++ name ++ ".csv")

def parametersPath (directory name : String) : String :=
  Path.entry directory ("contract_parameters_" ++ name ++ ".csv")

namespace Output

def csv (directory name : String) (files : List LabelledTables) : List OutputStep :=
  [.makeDirs directory,
   .write (objectsPath directory name) (objectsCsv name files),
   .write (parametersPath directory name) (parametersCsv name files)]

def csvLine (directory name : String) : String :=
  "Wrote " ++ objectsPath directory name ++ " and " ++ parametersPath directory name ++ "\n"

def fileCsv (directory stem : String) (tables : Tables) : Output where
  steps := csv directory stem [⟨stem, tables⟩]
  printed := csvLine directory stem

def fileJson (directory stem : String) (tables : Tables) : Output :=
  let path := Path.entry directory (stem ++ ".json")
  { steps := [.makeDirs directory, .write path tables.toJsonText]
    printed := "Wrote " ++ path ++ "\n" }

def failedLines (failed : List String) : String :=
  if failed.isEmpty then ""
  else
    "Could not parse the following files:\n" ++
      String.join (failed.map fun path => "\t" ++ path ++ "\n")

/-- A project none of whose files could be parsed leaves no file behind. -/
def project (directory : String) (report : ProjectReport) : Output :=
  let summary := "Summary: parsed " ++ report.files.length.repr ++ " files\n" ++
    failedLines report.failed
  if report.files.isEmpty then { steps := [], printed := summary }
  else
    { steps := csv directory report.project report.labelled
      printed := csvLine directory report.project ++ summary }

end Output
end ContractTables
