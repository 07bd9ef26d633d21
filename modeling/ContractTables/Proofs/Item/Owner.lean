import ContractTables.Item

/-!
Which definition declares a declaration. A row refers to its definition by name and
contract only; here the definition is told by its place in the table, which is the number
of definitions listed before it. The names of a declaration are always those of the
definition at that place, and every declaration of a document has one.
-/
namespace ContractTables

theorem Declaration.belongsTo_of_ofNode {node : Node} {owner : Definition}
    {declaration : Declaration} (accepted : ofNode node owner = .ok declaration) :
    declaration.belongsTo owner := by
  rw [ofNode] at accepted
  split at accepted
  · cases accepted
  · cases accepted
  · cases accepted
  · cases accepted
    simp [belongsTo]

namespace Item

def definitionsOf (items : List Item) : List Definition := items.filterMap definition?

def declarationsOf (items : List Item) : List Declaration := items.filterMap declaration?

@[simp] theorem definitionsOf_append (first second : List Item) :
    definitionsOf (first ++ second) = definitionsOf first ++ definitionsOf second :=
  List.filterMap_append

def numbered (itemsOf : Node → List Item) : Nat → List Node → List (Nat × Node)
  | _, [] => []
  | next, node :: rest =>
      (next, node) :: numbered itemsOf (next + (definitionsOf (itemsOf node)).length) rest

def ownedByMember (contract : Nat) (owner : Definition) (place : Nat) (node : Node) :
    List (Nat × Declaration) :=
  (declarationsOf (ofMember owner node)).map fun declaration =>
    (if node.tag? = some "StateVariableDeclaration" then contract else place, declaration)

def ownedByContract (ignored : List String) (place : Nat) (node : Node) :
    List (Nat × Declaration) :=
  match ofContract ignored node with
  | definition found :: _ =>
      (numbered (ofMember found) (place + 1) (node.children "subNodes")).flatMap
        fun (next, member) => ownedByMember place found next member
  | _ => []

/-- The declarations of a document in document order, each with the place of the
definition that declares it. -/
def owned (root : Node) (ignored : List String) : List (Nat × Declaration) :=
  (numbered (ofContract ignored) 0 (contracts root)).flatMap fun (place, node) =>
    ownedByContract ignored place node

theorem ofContract_cases (ignored : List String) (node : Node) :
    (∃ found, ofContract ignored node =
      definition found :: (node.children "subNodes").flatMap (ofMember found)) ∨
    ofContract ignored node = [] ∨ ∃ found, ofContract ignored node = [fault found] := by
  rw [ofContract]
  split
  · exact .inr (.inr ⟨_, rfl⟩)
  · split
    · exact .inr (.inl rfl)
    · split
      · exact .inl ⟨_, rfl⟩
      · exact .inr (.inr ⟨_, rfl⟩)

theorem numbered_values (itemsOf : Node → List Item) (next : Nat) (nodes : List Node) :
    (numbered itemsOf next nodes).map Prod.snd = nodes := by
  induction nodes generalizing next with
  | nil => rfl
  | cons node rest ih => simp [numbered, ih]

theorem flatMap_numbered {α : Type} (itemsOf : Node → List Item) (next : Nat)
    (nodes : List Node) (f : Node → List α) :
    (numbered itemsOf next nodes).flatMap (fun place => f place.2) = nodes.flatMap f := by
  rw [← numbered_values itemsOf next nodes, List.flatMap_map, numbered_values]

theorem declarations_ownedByMember (contract : Nat) (owner : Definition) (place : Nat)
    (node : Node) :
    (ownedByMember contract owner place node).map Prod.snd =
      declarationsOf (ofMember owner node) := by
  simp [ownedByMember, Function.comp_def]

theorem declarations_ownedByContract (ignored : List String) (place : Nat) (node : Node) :
    (ownedByContract ignored place node).map Prod.snd =
      declarationsOf (ofContract ignored node) := by
  rcases ofContract_cases ignored node with ⟨found, listed⟩ | listed | ⟨found, listed⟩
  · simp only [ownedByContract, listed, List.map_flatMap, declarations_ownedByMember]
    rw [flatMap_numbered (ofMember found) (place + 1) _
      fun member => declarationsOf (ofMember found member), declarationsOf,
      List.filterMap_cons_none rfl, List.filterMap_flatMap]
    rfl
  · simp [ownedByContract, listed, declarationsOf]
  · simp [ownedByContract, listed, declarationsOf, declaration?]

theorem declarations_owned (root : Node) (ignored : List String) :
    (owned root ignored).map Prod.snd =
      declarationsOf ((contracts root).flatMap (ofContract ignored)) := by
  simp only [owned, List.map_flatMap, declarations_ownedByContract]
  rw [flatMap_numbered (ofContract ignored) 0 _
    fun node => declarationsOf (ofContract ignored node)]
  simp [declarationsOf, List.filterMap_flatMap]

def StandAt (all : List Definition) (place : Nat) (part : List Definition) : Prop :=
  ∃ before after, all = before ++ part ++ after ∧ before.length = place

theorem StandAt.left {all first second : List Definition} {place : Nat}
    (stand : StandAt all place (first ++ second)) : StandAt all place first := by
  obtain ⟨before, after, whole, long⟩ := stand
  exact ⟨before, second ++ after, by simp [whole], long⟩

theorem StandAt.right {all first second : List Definition} {place : Nat}
    (stand : StandAt all place (first ++ second)) :
    StandAt all (place + first.length) second := by
  obtain ⟨before, after, whole, long⟩ := stand
  exact ⟨before ++ first, after, by simp [whole], by simp [long]⟩

theorem StandAt.head {all rest : List Definition} {place : Nat} {first : Definition}
    (stand : StandAt all place (first :: rest)) : all[place]? = some first := by
  obtain ⟨before, after, rfl, rfl⟩ := stand
  simp

theorem standAt_of_mem_numbered {itemsOf : Node → List Item} {all : List Definition}
    {next place : Nat} {nodes : List Node} {node : Node}
    (stand : StandAt all next (definitionsOf (nodes.flatMap itemsOf)))
    (member : (place, node) ∈ numbered itemsOf next nodes) :
    StandAt all place (definitionsOf (itemsOf node)) := by
  induction nodes generalizing next with
  | nil => simp [numbered] at member
  | cons first rest ih =>
      rw [List.flatMap_cons, definitionsOf_append] at stand
      rcases List.mem_cons.mp member with same | later
      · cases same
        exact stand.left
      · exact ih stand.right later

theorem belongsTo_of_mem_map_ofDeclaration {owner : Definition} {nodes : List Node}
    {declaration : Declaration}
    (member : declaration ∈ declarationsOf (nodes.map (ofDeclaration owner))) :
    declaration.belongsTo owner := by
  obtain ⟨item, inItems, same⟩ := List.mem_filterMap.mp member
  obtain ⟨node, _, rfl⟩ := List.mem_map.mp inItems
  cases accepted : Declaration.ofNode node owner with
  | error fault => simp [ofDeclaration, accepted, declaration?] at same
  | ok found =>
      obtain rfl : found = declaration := by
        simpa [ofDeclaration, accepted, declaration?] using same
      exact Declaration.belongsTo_of_ofNode accepted

/-- An entry in the body of a contract declares for itself or for the contract. -/
theorem owner_of_mem_ownedByMember {all : List Definition} {owner : Definition}
    {contract place own : Nat} {node : Node} {declaration : Declaration}
    (outer : all[contract]? = some owner)
    (stand : StandAt all own (definitionsOf (ofMember owner node)))
    (member : (place, declaration) ∈ ownedByMember contract owner own node) :
    ∃ found, all[place]? = some found ∧ declaration.belongsTo found := by
  obtain ⟨listed, inItems, same⟩ := List.mem_map.mp member
  obtain ⟨rfl, rfl⟩ := Prod.mk.inj same
  rw [ofMember] at inItems stand
  by_cases stored : node.tag? = some "StateVariableDeclaration"
  · rw [if_pos stored] at inItems ⊢
    exact ⟨owner, outer, belongsTo_of_mem_map_ofDeclaration inItems⟩
  · rw [if_neg stored] at inItems stand ⊢
    cases accepted : Definition.ofNode node owner.name with
    | error found => simp [accepted, declarationsOf, declaration?] at inItems
    | ok found =>
        simp only [accepted] at inItems stand
        have inList : listed ∈
            declarationsOf ((declared node found.kind).map (ofDeclaration found)) := inItems
        exact ⟨found, stand.head, belongsTo_of_mem_map_ofDeclaration inList⟩

theorem owner_of_mem_ownedByContract {all : List Definition} {ignored : List String}
    {place own : Nat} {node : Node} {declaration : Declaration}
    (stand : StandAt all own (definitionsOf (ofContract ignored node)))
    (member : (place, declaration) ∈ ownedByContract ignored own node) :
    ∃ found, all[place]? = some found ∧ declaration.belongsTo found := by
  rcases ofContract_cases ignored node with ⟨contract, listed⟩ | listed | ⟨found, listed⟩
  · simp only [ownedByContract, listed] at member
    obtain ⟨⟨next, entry⟩, numbers, inEntry⟩ := List.mem_flatMap.mp member
    have parts : definitionsOf (ofContract ignored node) =
        [contract] ++ definitionsOf ((node.children "subNodes").flatMap (ofMember contract)) := by
      rw [listed]
      rfl
    rw [parts] at stand
    exact owner_of_mem_ownedByMember stand.left.head
      (standAt_of_mem_numbered stand.right numbers) inEntry
  · simp [ownedByContract, listed] at member
  · simp [ownedByContract, listed] at member

theorem owner_of_mem_owned {root : Node} {ignored : List String} {place : Nat}
    {declaration : Declaration} (member : (place, declaration) ∈ owned root ignored) :
    ∃ found, (definitionsOf ((contracts root).flatMap (ofContract ignored)))[place]? =
      some found ∧ declaration.belongsTo found := by
  obtain ⟨⟨own, node⟩, numbers, inContract⟩ := List.mem_flatMap.mp member
  have whole : StandAt (definitionsOf ((contracts root).flatMap (ofContract ignored))) 0
      (definitionsOf ((contracts root).flatMap (ofContract ignored))) := ⟨[], [], by simp, rfl⟩
  exact owner_of_mem_ownedByContract (standAt_of_mem_numbered whole numbers) inContract

end Item

namespace Tables

def definitions (tables : Tables) : List Definition := tables.objects.map (·.definition)

def declarations (tables : Tables) : List Declaration := tables.parameters.map (·.declaration)

theorem spans_definitions (tables : Tables) :
    tables.definitions.map (·.span) = tables.objects.map (·.definition.span) := by
  simp [definitions]

theorem definitions_ofItems (items : List Item) :
    (ofItems items).definitions = Item.definitionsOf items := by
  simp [definitions, ofItems, Item.definitionsOf, Function.comp_def]

theorem declarations_ofItems (items : List Item) :
    (ofItems items).declarations = Item.declarationsOf items := by
  simp [declarations, ofItems, Item.declarationsOf, Function.comp_def]

theorem eq_ofItems_of_extract {root : Node} {ignored : List String} {tables : Tables}
    (extracted : extract root ignored = .ok tables) :
    tables = ofItems ((Item.contracts root).flatMap (Item.ofContract ignored)) := by
  simp only [extract, Item.ofDocument] at extracted
  split at extracted
  · cases extracted
  · split at extracted
    · exact (Except.ok.inj extracted).symm
    · cases extracted

/-- Every declaration in the tables is declared by one definition in them, whose name and
contract it bears. -/
theorem exists_owner_of_extract {root : Node} {ignored : List String} {tables : Tables}
    (extracted : extract root ignored = .ok tables) {i : Nat} {declaration : Declaration}
    (here : tables.declarations[i]? = some declaration) :
    ∃ place owner, (Item.owned root ignored)[i]? = some (place, declaration) ∧
      tables.definitions[place]? = some owner ∧ declaration.belongsTo owner := by
  rw [eq_ofItems_of_extract extracted, declarations_ofItems, ← Item.declarations_owned,
    List.getElem?_map] at here
  obtain ⟨⟨place, same⟩, found, rfl⟩ := Option.map_eq_some_iff.mp here
  obtain ⟨owner, standing, belongs⟩ := Item.owner_of_mem_owned (List.mem_of_getElem? found)
  refine ⟨place, owner, found, ?_, belongs⟩
  rw [eq_ofItems_of_extract extracted, definitions_ofItems]
  exact standing

end Tables
end ContractTables
