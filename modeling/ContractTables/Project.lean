import ContractTables.Csv.Tables
import ContractTables.Project.Discovery
import ContractTables.Json.Load
import ContractTables.Source

/-!
All files of a project. The syntax tree of a source file stands beside it, under its name
with `.json` added or with `.json` in place of its extension. A file that fails is set
aside and leaves the others alone.
-/
namespace ContractTables

def loadTree (disk : Disk) (path : String) : Except Failure Json :=
  match disk.read? path with
  | none => .error (.unreadableTree path)
  | some text =>
      match Json.load? text.toList with
      | some tree => .ok tree
      | none => .error (.invalidTree path)

/-- The tables of a source file whose syntax tree is in a given place. -/
def parseFile (disk : Disk) (settings : Settings) (tree source : String) : Except Failure Tables :=
  do
    let root ← loadTree disk tree
    match disk.read? source with
    | none => .error (.unreadableSource source)
    | some text => (Tables.parseSource settings root text).mapError (.rejected source)

/-- Where the syntax tree of a source file is, if it is there. -/
def treePath? (disk : Disk) (source : String) : Option String :=
  [source ++ ".json", ((Path.parse source).withExtension "json").text].find? disk.isFile

/-- The name of the project directory, the directories below it and the name of the file
up to its first dot. -/
def fileLabel (root path : String) : String :=
  let base := Path.parse root
  let path := Path.parse path
  let below := (path.parents.head?.bind (Path.below? base)).map Path.text
  let stem := (path.name?.getD "").toList.takeWhile (· ≠ '.')
  base.name?.getD "" ++ "/" ++
    String.ofList (Text.stripBoth (· = '/') (below.getD "").toList) ++ "/" ++ String.ofList stem

structure ParsedFile where
  label : String
  path : String
  tables : Tables

structure ProjectReport where
  project : String
  files : List ParsedFile
  failed : List String

namespace ProjectReport

def objectCount (report : ProjectReport) : Nat :=
  (report.files.flatMap (·.tables.objects)).length

def parameterCount (report : ProjectReport) : Nat :=
  (report.files.flatMap (·.tables.parameters)).length

def labelled (report : ProjectReport) : List LabelledTables :=
  report.files.map fun file => ⟨file.label, file.tables⟩

end ProjectReport

def parseProjectFile (disk : Disk) (settings : Settings) (root path : String) :
    Except Failure ParsedFile := do
  match treePath? disk path with
  | none => .error (.noTree path)
  | some tree => .ok ⟨fileLabel root path, path, ← parseFile disk settings tree path⟩

def parseProject (disk : Disk) (root project : String) (options : WalkOptions)
    (settings : Settings) (reader : PatternReader := Pattern.read?) :
    Except Failure ProjectReport := do
  let paths ← discover disk root options settings reader
  let results := paths.map fun path => (path, parseProjectFile disk settings root path)
  .ok { project
        files := results.filterMap fun (_, result) => result.toOption
        failed := (results.filter fun (_, result) => result.toOption.isNone).map Prod.fst }

end ContractTables
