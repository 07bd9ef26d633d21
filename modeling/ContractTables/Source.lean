import ContractTables.Coding.Codes
import ContractTables.Comment.Annotation
import ContractTables.Item
import ContractTables.Settings

/-!
The finished tables of one Solidity file: rows from its syntax tree, comments from its
source lines, codes from a taxonomy.
-/
namespace ContractTables.Tables

def parse (settings : Settings) (root : Node) (lines : List Text.Line) : Except Fault Tables :=
  (extract root settings.ignoredContracts).map fun tables =>
    (tables.annotate lines).code settings.taxonomy

def parseSource (settings : Settings) (root : Node) (source : String) : Except Fault Tables :=
  parse settings root (Text.lines source.toList)

end ContractTables.Tables
