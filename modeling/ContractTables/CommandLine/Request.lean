import ContractTables.CommandLine.Arguments
import ContractTables.Project.Discovery

/-!
What a command line asks for: the tables of one file, or of a project.
-/
namespace ContractTables.CommandLine

inductive Format where
  | csv
  | json
  deriving DecidableEq

inductive Command where
  | file (tree source : String) (format : Format)
  | project (root : String) (label : Option String) (options : WalkOptions)

structure Request where
  command : Command
  output : String
  taxonomy : Option String

/-- A request, or a text to print instead, or a call that cannot be understood. -/
inductive Call where
  | request (request : Request)
  | version (text : String)
  | help
  | misuse

def taxonomyForm : OptionForm := { name := "taxonomy" }

def outputForm : OptionForm := { name := "output", letter := some 'o' }

def topLevel : Level :=
  { forms := [taxonomyForm], operands := 0, subcommands := ["file", "repo", "help"] }

def fileLevel : Level :=
  { forms := [taxonomyForm, outputForm, { name := "format", hasDefault := true }]
    operands := 2, subcommands := [] }

def listForm (name : String) : OptionForm := { name, repeats := true }

def projectLevel : Level :=
  { forms :=
      [taxonomyForm, outputForm, { name := "label", letter := some 'l' },
       { name := "no-defaults", takesValue := false }, listForm "exclude-dir",
       listForm "include-dir", listForm "exclude-file", listForm "include-file"]
    operands := 1, subcommands := [] }

def format? : Option String → Option Format
  | none => some .csv
  | some "csv" => some .csv
  | some "json" => some .json
  | some _ => none

def fileCommand? (reading : Reading) : Option Command :=
  match reading.operands, format? (reading.value? "format") with
  | [tree, source], some format => some (.file tree source format)
  | _, _ => none

def projectCommand? (reading : Reading) : Option Command :=
  match reading.operands with
  | [root] =>
      some (.project root (reading.value? "label")
        { useDefaults := !reading.met.contains "no-defaults"
          excludedDirs := reading.valuesOf "exclude-dir"
          includedDirs := reading.valuesOf "include-dir"
          excludedFiles := reading.valuesOf "exclude-file"
          includedFiles := reading.valuesOf "include-file" })
  | _ => none

def Stop.call (version : String) : Stop → Call
  | .version => .version version
  | .help => .help
  | .misuse => .misuse

/-- The request of a subcommand. Its taxonomy counts before the one given in front of it. -/
def subcommand (top : Reading) (name : String) (level : Level)
    (command? : Reading → Option Command) (arguments : List String) : Call :=
  match readWhole level arguments with
  | .error stop => stop.call ("solcoder-" ++ name ++ " \n")
  | .ok reading =>
      match command? reading with
      | none => .misuse
      | some command =>
          if top.complete topLevel.forms then
            .request
              { command, output := (reading.value? "output").getD "."
                taxonomy := reading.value? "taxonomy" <|> top.value? "taxonomy" }
          else .misuse

def Call.ofArguments (arguments : List String) : Call :=
  match readLevel topLevel arguments none false {} with
  | .error stop => stop.call "solcoder 0.1.0\n"
  | .ok (top, "file" :: rest) => subcommand top "file" fileLevel fileCommand? rest
  | .ok (top, "repo" :: rest) => subcommand top "repo" projectLevel projectCommand? rest
  | .ok (_, ["help"]) => .help
  | .ok (_, ["help", name]) => if topLevel.subcommands.contains name then .help else .misuse
  | .ok _ => .misuse

end ContractTables.CommandLine
