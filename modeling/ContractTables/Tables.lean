import ContractTables.Dictionary

/-!
The two tables of a Solidity file: one row for each definition and one for each declared
parameter, member or state variable. A row keeps what the syntax tree declares apart from
what comments say about it and from the codes found in both.
-/
namespace ContractTables

inductive DefinitionKind where
  | contract
  | event
  | modifier
  | function
  | struct
  | enum
  deriving DecidableEq, Repr

namespace DefinitionKind

def tag : DefinitionKind → String
  | contract => "ContractDefinition"
  | event => "EventDefinition"
  | modifier => "ModifierDefinition"
  | function => "FunctionDefinition"
  | struct => "StructDefinition"
  | enum => "EnumDefinition"

def all : List DefinitionKind := [contract, event, modifier, function, struct, enum]

def ofTag? (tag : String) : Option DefinitionKind := all.find? fun kind => kind.tag = tag

theorem ofTag?_eq_some_iff {tag : String} {kind : DefinitionKind} :
    ofTag? tag = some kind ↔ tag = kind.tag := by
  constructor
  · intro found
    simpa [eq_comm] using List.find?_some found
  · rintro rfl
    cases kind <;> decide

end DefinitionKind

/-- First and last source line of a definition, counted from one. -/
structure LineSpan where
  first : Nat
  last : Nat
  deriving DecidableEq, Repr

structure Definition where
  name : String
  kind : DefinitionKind
  contract : String
  bases : List String
  modifiers : List String
  values : List String
  visibility : String
  span : LineSpan
  deriving DecidableEq

structure NatSpec where
  title : String := ""
  notice : String := ""
  dev : String := ""
  returns : String := ""
  params : List String := []
  other : Dictionary String := {}
  deriving DecidableEq

structure DefinitionComment where
  full : String := ""
  description : String := ""
  natspec : NatSpec := {}
  deriving DecidableEq

structure Codes where
  keywords : List String := []
  topics : List String := []
  deriving DecidableEq

structure ObjectRow where
  definition : Definition
  comment : DefinitionComment := {}
  codes : Codes := {}
  deriving DecidableEq

/-- A declared name; `owner` and `contract` name the definition that declares it. -/
structure Declaration where
  name : String
  owner : String
  contract : String
  type : String
  category : String
  initial : Option String
  line : Nat
  visibility : String
  deriving DecidableEq

structure DeclarationComment where
  full : String := ""
  description : String := ""
  inline : String := ""
  deriving DecidableEq

structure ParameterRow where
  declaration : Declaration
  comment : DeclarationComment := {}
  deriving DecidableEq

/-- What was left out of the tables, and where. -/
structure Diagnostic where
  line : Option Nat
  message : String
  deriving DecidableEq

structure Tables where
  objects : List ObjectRow := []
  parameters : List ParameterRow := []
  diagnostics : List Diagnostic := []
  deriving DecidableEq

/-- Definitions are referred to by name and contract, so overloads share their rows. -/
def Declaration.belongsTo (declaration : Declaration) (definition : Definition) : Bool :=
  declaration.owner = definition.name && declaration.contract = definition.contract

def ParameterRow.belongsTo (row : ParameterRow) (object : ObjectRow) : Bool :=
  row.declaration.belongsTo object.definition

def Tables.parametersOf (tables : Tables) (object : ObjectRow) : List ParameterRow :=
  tables.parameters.filter (·.belongsTo object)

end ContractTables
