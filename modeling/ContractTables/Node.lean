import ContractTables.Json.Basic

/-!
Nodes of a Solidity syntax tree, which is a JSON document. Every access is partial, so
the caller decides whether a missing field matters; a null field counts as missing.
-/
namespace ContractTables

abbrev Node := Json

namespace Node

def field? (node : Node) (key : String) : Option Json :=
  match node.member? key with
  | some .null => none
  | found => found

def text? (node : Node) (key : String) : Option String := (node.field? key).bind Json.text?

def child? (node : Node) (key : String) : Option Node := (node.field? key).filter Json.isObject

/-- The objects in an array-valued field; any other field has none. -/
def children (node : Node) (key : String) : List Node :=
  match node.field? key with
  | some (.array items) => items.filter Json.isObject
  | _ => []

/-- Some producers name the tag of a node `kind`. -/
def tag? (node : Node) : Option String := node.text? "type" <|> node.text? "kind"

def tag (node : Node) : String := node.tag?.getD "?"

def name? (node : Node) : Option String := node.text? "name"

def line? (node : Node) (edge : String) : Option Nat := do
  (← (← (← node.member? "loc").member? edge).member? "line").word?

def startLine? (node : Node) : Option Nat := node.line? "start"

def endLine? (node : Node) : Option Nat := node.line? "end"

end Node
end ContractTables
