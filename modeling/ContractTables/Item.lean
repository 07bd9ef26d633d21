import ContractTables.Declaration

/-!
Tables from a syntax tree. A document is first listed as items in document order, each a
definition, a declaration or a fault; the tables are the items of each kind, so every
node that is looked at leaves exactly one row or one diagnostic.
-/
namespace ContractTables

inductive Item where
  | definition (definition : Definition)
  | declaration (declaration : Declaration)
  | fault (fault : Fault)

namespace Item

def definition? : Item → Option Definition
  | definition d => some d
  | _ => none

def declaration? : Item → Option Declaration
  | declaration d => some d
  | _ => none

def fault? : Item → Option Fault
  | fault f => some f
  | _ => none

def ofDeclaration (owner : Definition) (node : Node) : Item :=
  match Declaration.ofNode node owner with
  | .ok found => declaration found
  | .error found => fault found

/-- The nodes declared by a definition. Parameters are a list, or a node that holds one. -/
def declared (node : Node) : DefinitionKind → List Node
  | .struct => node.children "members"
  | .function | .event | .modifier =>
      match node.child? "parameters" with
      | some list => list.children "parameters"
      | none => node.children "parameters"
  | .contract | .enum => []

def ofMember (contract : Definition) (node : Node) : List Item :=
  if node.tag? = some "StateVariableDeclaration" then
    (node.children "variables").map (ofDeclaration contract)
  else match Definition.ofNode node contract.name with
    | .ok found => definition found :: (declared node found.kind).map (ofDeclaration found)
    | .error found => [fault found]

def ofContract (ignored : List String) (node : Node) : List Item :=
  match node.name? with
  | none => [fault (.malformed "ContractDefinition" .name node.startLine?)]
  | some name =>
      if ignored.contains name then []
      else match Definition.ofNode node name with
        | .ok found => definition found :: (node.children "subNodes").flatMap (ofMember found)
        | .error found => [fault found]

/-- The contracts of a document; imports, pragmas and the like are passed over. -/
def contracts (root : Node) : List Node :=
  (root.children "children").filter fun node => node.tag? = some DefinitionKind.contract.tag

def ofDocument (root : Node) (ignored : List String) : Except Fault (List Item) :=
  if !root.isObject then .error .rootNotObject
  else match root.field? "children" with
    | some (.array _) => .ok ((contracts root).flatMap (ofContract ignored))
    | _ => .error .noChildren

end Item

namespace Tables

def ofItems (items : List Item) : Tables :=
  { objects := (items.filterMap Item.definition?).map fun d => { definition := d }
    parameters := (items.filterMap Item.declaration?).map fun d => { declaration := d }
    diagnostics := (items.filterMap Item.fault?).map Fault.diagnostic }

/-- The tables of a document with comments and codes still empty. -/
def extract (root : Node) (ignored : List String) : Except Fault Tables :=
  (Item.ofDocument root ignored).map ofItems

end Tables
end ContractTables
