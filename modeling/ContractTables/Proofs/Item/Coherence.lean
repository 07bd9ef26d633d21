import ContractTables.Proofs.Comment.Passes
import ContractTables.Proofs.Document
import ContractTables.Proofs.Node

/-!
What holds of all finished tables, whatever the document. The definitions of a document
come in blocks, a contract and then the entries in its body, so the contract that a row
names always stands at or above it. Each declaration has a definition of its own, and
neither comments nor codes touch the names that tie the rows together.
-/
namespace ContractTables

structure Definition.Shaped (definition : Definition) : Prop where
  ofContract : definition.kind = .contract → definition.name = definition.contract ∧
    definition.modifiers = [] ∧ definition.values = [] ∧ definition.visibility = ""
  ofMember : definition.kind ≠ .contract →
    definition.bases = [] ∧ ∀ rest, definition.name ≠ "function()" ++ rest
  ofEnum : definition.kind ≠ .enum → definition.values = []

def HoldsContract (definitions : List Definition) (place : Nat) (name : String) : Prop :=
  ∃ i ≤ place, ∃ contract, definitions[i]? = some contract ∧ contract.kind = .contract ∧
    contract.name = name

def Enclosed (definitions : List Definition) : Prop :=
  ∀ i definition, definitions[i]? = some definition →
    HoldsContract definitions i definition.contract

structure Tables.Coherent (tables : Tables) (ignored : List String) : Prop where
  enclosed : Enclosed tables.definitions
  /-- A declaration belongs to a definition, and stands in a contract that is listed no later
  than this definition. -/
  owned : ∀ declaration ∈ tables.declarations, ∃ i owner, tables.definitions[i]? = some owner ∧
    declaration.belongsTo owner ∧ HoldsContract tables.definitions i declaration.contract
  unignored : (∀ definition ∈ tables.definitions, definition.contract ∉ ignored) ∧
    ∀ declaration ∈ tables.declarations, declaration.contract ∉ ignored
  shaped : ∀ definition ∈ tables.definitions, definition.Shaped

namespace Definition

theorem ownName_ne_append (name rest : String) : ownName name ≠ "function()" ++ rest := by
  intro same
  rw [ownName] at same
  split at same
  · have first := congrArg (·.toList.head?) same
    simp [anonymous] at first
  · next other =>
      apply other
      rw [Text.startsWith_iff, same, String.toList_append]
      exact List.prefix_append _ _

theorem shaped_ofContract (node : Node) (contract : String) (span : LineSpan) :
    (Definition.ofContract node contract span).Shaped where
  ofContract _ := ⟨rfl, rfl, rfl, rfl⟩
  ofMember other := absurd rfl other
  ofEnum _ := rfl

theorem shaped_ofMember (node : Node) {kind : DefinitionKind} (other : kind ≠ .contract)
    (name contract : String) (span : LineSpan) :
    (Definition.ofMember node kind name contract span).Shaped where
  ofContract same := absurd same other
  ofMember _ := ⟨rfl, ownName_ne_append name⟩
  ofEnum unlisted := if_neg unlisted

theorem shaped_of_ofNode {node : Node} {contract : String} {found : Definition}
    (accepted : ofNode node contract = .ok found) :
    found.contract = contract ∧ found.Shaped := by
  rw [ofNode] at accepted
  split at accepted
  · cases accepted
  · split at accepted
    · cases accepted
    · split at accepted
      · cases accepted
        exact ⟨rfl, shaped_ofContract node contract _⟩
      · next other =>
          split at accepted
          · cases accepted
          · cases accepted
            exact ⟨rfl, shaped_ofMember node other _ contract _⟩

end Definition

open Item

theorem Enclosed.append {first second : List Definition} (left : Enclosed first)
    (right : Enclosed second) : Enclosed (first ++ second) := by
  intro i definition here
  by_cases inFirst : i < first.length
  · rw [List.getElem?_append_left inFirst] at here
    obtain ⟨j, above, contract, there, holds⟩ := left i definition here
    refine ⟨j, above, contract, ?_, holds⟩
    rw [List.getElem?_append_left (Nat.lt_of_le_of_lt above inFirst)]
    exact there
  · have reached : first.length ≤ i := Nat.le_of_not_lt inFirst
    rw [List.getElem?_append_right reached] at here
    obtain ⟨j, above, contract, there, holds⟩ := right _ definition here
    refine ⟨first.length + j, by omega, contract, ?_, holds⟩
    rw [List.getElem?_append_right (Nat.le_add_right _ j), Nat.add_sub_cancel_left]
    exact there

/-- Blocks of definitions that are each enclosed are enclosed in a row. -/
theorem Enclosed.flatMap {itemsOf : Node → List Item} {nodes : List Node}
    (each : ∀ node ∈ nodes, Enclosed (definitionsOf (itemsOf node))) :
    Enclosed (definitionsOf (nodes.flatMap itemsOf)) := by
  induction nodes with
  | nil =>
      intro i definition here
      cases here
  | cons node rest ih =>
      obtain ⟨first, later⟩ := List.forall_mem_cons.mp each
      rw [List.flatMap_cons, definitionsOf_append]
      exact first.append (ih later)

/-- A contract in front encloses all that names it. -/
theorem Enclosed.cons {contract : Definition} {rest : List Definition}
    (isContract : contract.kind = .contract) (itself : contract.name = contract.contract)
    (within : ∀ definition ∈ rest, definition.contract = contract.name) :
    Enclosed (contract :: rest) := by
  intro i definition here
  refine ⟨0, Nat.zero_le i, contract, rfl, isContract, ?_⟩
  rcases List.mem_cons.mp (List.mem_of_getElem? here) with rfl | later
  · exact itself
  · exact (within definition later).symm

namespace Item

open Definition

theorem definitionsOf_map_ofDeclaration (owner : Definition) (nodes : List Node) :
    definitionsOf (nodes.map (ofDeclaration owner)) = [] := by
  rw [definitionsOf, List.filterMap_map, List.filterMap_eq_nil_iff]
  intro node _
  rw [Function.comp_apply, ofDeclaration]
  split <;> rfl

/-- An entry in the body of a contract has one definition at most, and that names the
contract. -/
theorem of_mem_definitionsOf_ofMember {contract definition : Definition} {node : Node}
    (member : definition ∈ definitionsOf (ofMember contract node)) :
    definition.contract = contract.name ∧ definition.Shaped := by
  rw [ofMember] at member
  split at member
  · rw [definitionsOf_map_ofDeclaration] at member
    cases member
  · split at member
    · next found accepted =>
        have single : definitionsOf (Item.definition found ::
            (declared node found.kind).map (ofDeclaration found)) = [found] := by
          have none := definitionsOf_map_ofDeclaration found (declared node found.kind)
          exact congrArg (List.cons found) none
        rw [single, List.mem_singleton] at member
        exact member ▸ shaped_of_ofNode accepted
    · cases member

/-- What a contract of a document leaves among the definitions: nothing, or itself and then
the entries in its body. -/
theorem definitionsOf_ofContract_cases {ignored : List String} {node : Node}
    (tagged : node.tag? = some DefinitionKind.contract.tag) :
    definitionsOf (ofContract ignored node) = [] ∨
    ∃ contract rest, definitionsOf (ofContract ignored node) = contract :: rest ∧
      contract.kind = .contract ∧ contract.contract ∉ ignored ∧ contract.Shaped ∧
      ∀ definition ∈ rest, definition.contract = contract.name ∧ definition.Shaped := by
  rw [ofContract]
  split
  · exact .inl rfl
  · next name _ =>
      split
      · exact .inl rfl
      · next unignored =>
          cases accepted : Definition.ofNode node name with
          | error found => exact .inl rfl
          | ok contract =>
              obtain ⟨names, shaped⟩ := shaped_of_ofNode accepted
              have isContract : contract.kind = .contract := by
                have kind := tag_of_ofNode accepted
                rw [Node.tag, tagged] at kind
                exact (Option.some.inj kind).symm
              refine .inr ⟨contract, _, List.filterMap_cons_some rfl, isContract, ?_, shaped, ?_⟩
              · rw [names]
                simpa using unignored
              · intro definition member
                obtain ⟨item, inItems, same⟩ := List.mem_filterMap.mp member
                obtain ⟨entry, _, inEntry⟩ := List.mem_flatMap.mp inItems
                exact of_mem_definitionsOf_ofMember (List.mem_filterMap.mpr ⟨item, inEntry, same⟩)

theorem enclosed_ofContract {ignored : List String} {node : Node}
    (tagged : node.tag? = some DefinitionKind.contract.tag) :
    Enclosed (definitionsOf (ofContract ignored node)) := by
  rcases definitionsOf_ofContract_cases tagged with
    none | ⟨contract, rest, listed, isContract, _, shaped, within⟩
  · rw [none]
    intro i definition here
    cases here
  · rw [listed]
    exact Enclosed.cons isContract (shaped.ofContract isContract).1
      fun definition member => (within definition member).1

theorem of_mem_definitionsOf_ofContract {ignored : List String} {node : Node}
    (tagged : node.tag? = some DefinitionKind.contract.tag) {definition : Definition}
    (member : definition ∈ definitionsOf (ofContract ignored node)) :
    definition.contract ∉ ignored ∧ definition.Shaped := by
  rcases definitionsOf_ofContract_cases tagged with
    none | ⟨contract, rest, listed, isContract, unignored, shaped, within⟩
  · rw [none] at member
    cases member
  · rw [listed] at member
    rcases List.mem_cons.mp member with rfl | later
    · exact ⟨unignored, shaped⟩
    · obtain ⟨names, own⟩ := within definition later
      refine ⟨?_, own⟩
      rw [names, (shaped.ofContract isContract).1]
      exact unignored

end Item

namespace Tables

theorem tag?_of_mem_contracts {root node : Node} (member : node ∈ contracts root) :
    node.tag? = some DefinitionKind.contract.tag :=
  of_decide_eq_true (List.mem_filter.mp member).2

theorem coherent_extract {root : Node} {ignored : List String} {tables : Tables}
    (extracted : extract root ignored = .ok tables) : tables.Coherent ignored := by
  have listed : tables.definitions =
      definitionsOf ((contracts root).flatMap (ofContract ignored)) := by
    rw [eq_ofItems_of_extract extracted, definitions_ofItems]
  have enclosed : Enclosed tables.definitions := by
    rw [listed]
    exact Enclosed.flatMap fun node member => enclosed_ofContract (tag?_of_mem_contracts member)
  have each : ∀ definition ∈ tables.definitions,
      definition.contract ∉ ignored ∧ definition.Shaped := by
    intro definition member
    rw [listed] at member
    obtain ⟨item, inItems, same⟩ := List.mem_filterMap.mp member
    obtain ⟨node, inContracts, inNode⟩ := List.mem_flatMap.mp inItems
    exact of_mem_definitionsOf_ofContract (tag?_of_mem_contracts inContracts)
      (List.mem_filterMap.mpr ⟨item, inNode, same⟩)
  have owned : ∀ declaration ∈ tables.declarations, ∃ (i : Nat) (owner : Definition),
      tables.definitions[i]? = some owner ∧ declaration.belongsTo owner ∧
        declaration.contract = owner.contract := by
    intro declaration member
    obtain ⟨k, here⟩ := List.mem_iff_getElem?.mp member
    obtain ⟨i, owner, _, standing, belongs⟩ := exists_owner_of_extract extracted here
    refine ⟨i, owner, standing, belongs, ?_⟩
    have names := belongs
    simp only [Declaration.belongsTo, Bool.and_eq_true, decide_eq_true_eq] at names
    exact names.2
  refine ⟨enclosed, ?_, ⟨fun definition member => (each definition member).1, ?_⟩,
    fun definition member => (each definition member).2⟩
  · intro declaration member
    obtain ⟨i, owner, standing, belongs, names⟩ := owned declaration member
    exact ⟨i, owner, standing, belongs, names ▸ enclosed i owner standing⟩
  · intro declaration member
    obtain ⟨i, owner, standing, _, names⟩ := owned declaration member
    exact names ▸ (each owner (List.mem_of_getElem? standing)).1

theorem Coherent.finish {tables : Tables} {ignored : List String}
    (coherent : tables.Coherent ignored) (lines : List Text.Line) (taxonomy : Taxonomy) :
    (Tables.finish lines taxonomy tables).Coherent ignored := by
  obtain ⟨enclosed, owned, unignored, shaped⟩ := coherent
  constructor <;> simpa only [definitions_finish, declarations_finish]

/-- In the finished tables of any document each parameter belongs to an object and each
object stands in a contract at or above it; nothing is in an ignored contract, and each
object has only the columns of its kind. -/
theorem coherent_parse {settings : Settings} {root : Node} {lines : List Text.Line}
    {tables : Tables} (parsed : parse settings root lines = .ok tables) :
    tables.Coherent settings.ignoredContracts := by
  obtain ⟨bare, extracted, _, rfl⟩ := exists_bare_of_parse parsed
  exact (coherent_extract extracted).finish lines settings.taxonomy

def treasury : Node :=
  Document.ofContracts
    [Document.contract "Treasury" 1 9
      [.object [("type", .string "StateVariableDeclaration"),
          ("variables", .array [Document.word "total" 2])],
        Document.contract "Ledger" 3 4 [], Document.function "function() payable" 5 [],
        .object [("type", .string DefinitionKind.enum.tag), ("name", .string "State"),
          ("members", .array [.object [("name", .string "Open")]]), Document.location 6 6],
        Document.function "pay" 7 ["value", "note"]]]

theorem coherent_parse_treasury :
    ∃ tables, parse {} treasury [] = .ok tables ∧ tables.Coherent ["SafeMath"] := by
  have parsed : parse {} treasury [] = .ok (Tables.finish [] .governance
      (ofItems ((contracts treasury).flatMap (ofContract ["SafeMath"])))) := rfl
  exact ⟨_, parsed, coherent_parse parsed⟩

example : (ofItems ((contracts treasury).flatMap (ofContract ["SafeMath"]))).definitions.map
    (fun definition => (definition.name, definition.contract, definition.values)) =
      [("Treasury", "Treasury", []), ("Treasury", "Treasury", []), ("(none)", "Treasury", []),
        ("State", "Treasury", ["Open"]), ("pay", "Treasury", [])] := by decide +kernel

end Tables
end ContractTables
