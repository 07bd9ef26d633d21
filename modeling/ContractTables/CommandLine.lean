import ContractTables.CommandLine.Environment
import ContractTables.CommandLine.Request
import ContractTables.Coding.Document
import ContractTables.Output

/-!
A run of the program, from its arguments, its environment and the disk to what it writes,
prints and returns. A variable that is not set may be set in a file `.env`, the nearest one
in the current directory or above it.
-/
namespace ContractTables.CommandLine

/-- Where the file of variables can be for a directory, the nearest place first. The directory
is given by the names on the way up from it. -/
def variableFiles : List String → List String
  | [] => ["/.env"]
  | name :: above =>
      ("/" ++ "/".intercalate (above.reverse ++ [name, ".env"])) :: variableFiles above

/-- The variables of a run in the current directory of a disk. The search for their file ends
at a directory too deep for a path to lead into it. -/
def environmentAt? (disk : Disk) (environment : Environment) : Option Environment :=
  match ((variableFiles disk.current.reverse).takeWhile Disk.isPath).findSome? disk.bytes? with
  | none => some environment
  | some content => environment.extendFrom? content

def settingsOf (environment : Environment) : Settings :=
  .ofEnvironment fun name => environment.lookup name

def loadTaxonomy (disk : Disk) (path : String) : Except Failure Taxonomy :=
  match disk.read? path with
  | none => .error (.unreadableTaxonomy path)
  | some text =>
      match Taxonomy.load? text.toList with
      | some taxonomy => .ok taxonomy
      | none => .error (.invalidTaxonomy path)

def withTaxonomy (disk : Disk) (path : Option String) (settings : Settings) :
    Except Failure Settings :=
  match path with
  | none => .ok settings
  | some path => (loadTaxonomy disk path).map fun taxonomy => { settings with taxonomy }

/-- Everything a request writes, settled before any of it is written. -/
def plan (disk : Disk) (settings : Settings) (request : Request) : Except Failure Output := do
  let settings ← withTaxonomy disk request.taxonomy settings
  match request.command with
  | .file tree source format =>
      let tables ← parseFile disk settings tree source
      let stem := (Path.parse source).stem?.getD "contract"
      match format with
      | .csv => .ok (.fileCsv request.output stem tables)
      | .json => .ok (.fileJson request.output stem tables)
  | .project root label options =>
      let name := (label <|> (Path.parse root).name?).getD "project"
      .ok (.project request.output (← parseProject disk root name options settings))

structure Outcome where
  code : Nat
  printed : String
  failure : Option Failure
  disk : Disk

def answer (disk : Disk) (settings : Settings) (request : Request) : Outcome :=
  match plan disk settings request with
  | .error failure => ⟨1, "", some failure, disk⟩
  | .ok output =>
      match OutputStep.carryOutAll disk output.steps with
      | (disk, some failure) => ⟨1, "", some failure, disk⟩
      | (disk, none) => ⟨0, output.printed, none, disk⟩

/-- A short form of the help. The full pages, laid out from the declared options with a line
on each, are not modelled. -/
def usage : String :=
  "solcoder [--taxonomy FILE] file AST SOURCE [-o DIR] [--format csv|json]\n" ++
  "solcoder [--taxonomy FILE] repo DIR [-l LABEL] [-o DIR] [--no-defaults]\n" ++
  "    [--exclude-dir NAME]... [--include-dir NAME]...\n" ++
  "    [--exclude-file NAME]... [--include-file NAME]...\n"

/-- What comes of arguments alone, or of the request that they make. -/
def obey (disk : Disk) (environment : Environment) (arguments : List String) : Outcome :=
  match Call.ofArguments arguments with
  | .request request => answer disk (settingsOf environment) request
  | .version text => ⟨0, text, none, disk⟩
  | .help => ⟨0, usage, none, disk⟩
  | .misuse => ⟨1, "", none, disk⟩

/-- The code of a run that cannot hold a variable of its file, whatever its arguments are. -/
def brokenEnvironment : Nat := 101

def run (disk : Disk) (environment : Environment) (arguments : List String) : Outcome :=
  match environmentAt? disk environment with
  | some environment => obey disk environment arguments
  | none => ⟨brokenEnvironment, "", none, disk⟩

end ContractTables.CommandLine
