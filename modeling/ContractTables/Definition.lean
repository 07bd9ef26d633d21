import ContractTables.Fault
import ContractTables.Node
import ContractTables.Text.Search

/-!
Definitions read off syntax-tree nodes. A node is checked for its tag, its first line,
its last line and its name, in this order, and the first check that fails is the fault.
-/
namespace ContractTables

/-- Stands for a name or type that the syntax tree does not carry. -/
def unreadable : String := "error: could not parse"

/-- The name of a fallback function. -/
def anonymous : String := "(none)"

def LineSpan.ofNode (node : Node) : Except Fault LineSpan :=
  match node.startLine?, node.endLine? with
  | none, _ => .error (.malformed node.tag .startLine none)
  | some first, none => .error (.malformed node.tag .endLine first)
  | some first, some last => .ok ⟨first, last⟩

namespace Definition

def baseNames (node : Node) : List String :=
  (node.children "baseContracts").map fun base =>
    ((base.child? "baseName").bind fun name => name.text? "namePath" <|> name.name?).getD unreadable

def memberNames (node : Node) (key : String) : List String :=
  (node.children key).map fun item => item.name?.getD unreadable

/-- Syntax trees name a fallback function by its source text. -/
def ownName (name : String) : String :=
  if Text.startsWith "function()".toList name.toList then anonymous else name

def ofContract (node : Node) (contract : String) (span : LineSpan) : Definition :=
  { name := contract, kind := .contract, contract, bases := baseNames node,
    modifiers := [], values := [], visibility := "", span }

def ofMember (node : Node) (kind : DefinitionKind) (name contract : String) (span : LineSpan) :
    Definition :=
  { name := ownName name, kind, contract, bases := [], modifiers := memberNames node "modifiers",
    values := if kind = .enum then memberNames node "members" else [],
    visibility := (node.text? "visibility").getD "", span }

/-- A contract definition takes the name of the contract given, others their own. -/
def ofNode (node : Node) (contract : String) : Except Fault Definition :=
  match DefinitionKind.ofTag? node.tag with
  | none => .error (.unsupported node.tag node.startLine?)
  | some kind =>
      match LineSpan.ofNode node with
      | .error fault => .error fault
      | .ok span =>
          if kind = .contract then .ok (ofContract node contract span)
          else match node.name? with
            | none => .error (.malformed node.tag .name span.first)
            | some name => .ok (ofMember node kind name contract span)

end Definition
end ContractTables
