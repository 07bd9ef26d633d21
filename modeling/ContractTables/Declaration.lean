import ContractTables.Definition
import ContractTables.Json.Write
import ContractTables.Text.Blank
import ContractTables.Text.Case

/-!
Declarations read off syntax-tree nodes, with the source form of their types and values.
Types are resolved one level deep; a component that has no name of its own is shown by
its tag. A node is checked for its line, its name and its type, in this order.
-/
namespace ContractTables

namespace TypeName

def plain? (node : Node) : Option String := node.name? <|> node.text? "namePath"

def component (node : Option Node) : String :=
  match node with
  | none => "type:?"
  | some node => (plain? node).getD ("type:" ++ node.tag)

/-- Removes a size at the end of an elementary type name. -/
def dropSize (name : String) : String :=
  String.ofList (name.toList.reverse.dropWhile Char.isDigit).reverse

/-- The coarse class of a type: its tag in lower case without `TypeName`, `map`, or the
name of an elementary type without its size. -/
def category (node : Node) : String :=
  let tag := node.tag.toList
  let mark := "TypeName".toList
  dropSize <|
    if Text.occurs mark tag && node.tag ≠ "ElementaryTypeName" then
      String.ofList (Text.lower ((Text.dropEndMark? mark tag).getD tag))
    else if node.tag = "Mapping" then "map"
    else (plain? node).getD unreadable

end TypeName

namespace Expression

/-- Literals and names stand for themselves; any other value is written as JSON. -/
def scalarText : Json → String
  | .string value => value
  | other => other.compactText

def text (value : Json) : String :=
  let field (key : String) := (value.member? key).bind Json.text?
  match value with
  | .object _ =>
      match value.member? "value" with
      | none | some .null | some (.object _) =>
          match field "number", field "subdenomination", field "name" with
          | some number, some unit, _ => number ++ " " ++ unit
          | some number, none, _ => number
          | none, _, some name => name
          | none, _, none => value.compactText
      | some literal => scalarText literal
  | scalar => scalarText scalar

end Expression

namespace Declaration

/-- The declared type; the storage location is part of an array type only. -/
def typeText (declaration type : Node) : String :=
  if type.tag? = some "Mapping" then
    "mapping (" ++ TypeName.component (type.child? "keyType") ++ " => " ++
      TypeName.component (type.child? "valueType") ++ ")"
  else if type.tag? = some "ArrayTypeName" then
    let base := TypeName.component (type.child? "baseTypeName")
    let length := ((type.field? "length").map Expression.text).getD ""
    let location := (declaration.text? "storageLocation").getD ""
    String.ofList (Text.trim (base ++ "[" ++ length ++ "] " ++ location).toList)
  else (TypeName.plain? type).getD unreadable

def initialText (node : Node) : Option String :=
  (node.field? "initialValue" <|> node.field? "expression").map Expression.text

def ofNode (node : Node) (owner : Definition) : Except Fault Declaration :=
  let tag := node.tag?.getD "VariableDeclaration"
  match node.startLine?, node.name?, node.child? "typeName" with
  | none, _, _ => .error (.malformed tag .startLine none)
  | some line, none, _ => .error (.malformed tag .name line)
  | some line, some _, none => .error (.malformed tag .typeName line)
  | some line, some name, some type =>
      .ok { name, owner := owner.name, contract := owner.contract, type := typeText node type,
            category := TypeName.category type, initial := initialText node, line,
            visibility := (node.text? "visibility").getD "" }

end Declaration
end ContractTables
