import ContractTables.Proofs.Document
import ContractTables.Proofs.Item.Owner
import ContractTables.Proofs.Node

/-!
Which nodes the tables account for. A node is told by its place, the positions on the way
to it in the arrays of the document: that of its contract among the `children`, that of its
entry in the body of the contract, that of its declaration in the entry. Places compare
position by position, which is document order. A node that is visited leaves one item, and
the tables hold these items and no others.
-/
namespace ContractTables

def objectAt? (items : List Json) (i : Nat) : Option Node := items[i]?.filter Json.isObject

structure Visit where
  place : List Nat
  node : Node
  item : Item

namespace Visit

def under (i : Nat) (visit : Visit) : Visit := { visit with place := i :: visit.place }

def left (visit : Visit) : Tables := .ofItems [visit.item]

end Visit

namespace Item

def ofResult : Except Fault Definition → Item
  | .ok found => definition found
  | .error found => fault found

def ofContractNode (node : Node) : Item :=
  match node.name? with
  | none => fault (.malformed "ContractDefinition" .name node.startLine?)
  | some name => ofResult (Definition.ofNode node name)

def declaredItems (node : Node) : DefinitionKind → List Json
  | .struct => node.items "members"
  | .function | .event | .modifier =>
      match node.child? "parameters" with
      | some list => list.items "parameters"
      | none => node.items "parameters"
  | .contract | .enum => []

end Item

open Item

def IsListed (ignored : List String) (node : Node) : Prop :=
  node.tag? = some DefinitionKind.contract.tag ∧ ∀ name ∈ node.name?, name ∉ ignored

instance (ignored : List String) (node : Node) : Decidable (IsListed ignored node) :=
  inferInstanceAs (Decidable (_ ∧ _))

/-- The nodes that the tables have to account for, and what each of them leaves. -/
inductive Visited (root : Node) (ignored : List String) : Visit → Prop
  | contract {i : Nat} {node : Node} {item : Item}
      (stands : objectAt? (root.items "children") i = some node)
      (listed : IsListed ignored node) (left : ofContractNode node = item) :
      Visited root ignored ⟨[i], node, item⟩
  | member {i j : Nat} {outer node : Node} {contract : Definition} {item : Item}
      (accepted : Visited root ignored ⟨[i], outer, .definition contract⟩)
      (stands : objectAt? (outer.items "subNodes") j = some node)
      (tagged : node.tag? ≠ some "StateVariableDeclaration")
      (left : ofResult (Definition.ofNode node contract.name) = item) :
      Visited root ignored ⟨[i, j], node, item⟩
  | stateVariable {i j k : Nat} {outer entry node : Node} {contract : Definition}
      (accepted : Visited root ignored ⟨[i], outer, .definition contract⟩)
      (entered : objectAt? (outer.items "subNodes") j = some entry)
      (tagged : entry.tag? = some "StateVariableDeclaration")
      (stands : objectAt? (entry.items "variables") k = some node) :
      Visited root ignored ⟨[i, j, k], node, ofDeclaration contract node⟩
  | declared {i j k : Nat} {entry node : Node} {owner : Definition}
      (accepted : Visited root ignored ⟨[i, j], entry, .definition owner⟩)
      (stands : objectAt? (declaredItems entry owner.kind) k = some node) :
      Visited root ignored ⟨[i, j, k], node, ofDeclaration owner node⟩

def visitAll (visits : Node → List Visit) : Nat → List Json → List Visit
  | _, [] => []
  | next, node :: rest =>
      (if node.isObject then (visits node).map (Visit.under next) else []) ++
        visitAll visits (next + 1) rest

def visitDefinition (node : Node) (item : Item) (within : Definition → List Visit) :
    List Visit :=
  ⟨[], node, item⟩ :: (item.definition?.map within).getD []

def visitDeclaration (owner : Definition) (node : Node) : List Visit :=
  [⟨[], node, ofDeclaration owner node⟩]

def visitMember (contract : Definition) (node : Node) : List Visit :=
  if node.tag? = some "StateVariableDeclaration" then
    visitAll (visitDeclaration contract) 0 (node.items "variables")
  else
    visitDefinition node (ofResult (Definition.ofNode node contract.name)) fun found =>
      visitAll (visitDeclaration found) 0 (declaredItems node found.kind)

def visitContract (ignored : List String) (node : Node) : List Visit :=
  if IsListed ignored node then
    visitDefinition node (ofContractNode node) fun found =>
      visitAll (visitMember found) 0 (node.items "subNodes")
  else []

def visitDocument (root : Node) (ignored : List String) : List Visit :=
  visitAll (visitContract ignored) 0 (root.items "children")

/-- A visit in a list is the visit to one of its objects, under the position of that object. -/
theorem mem_visitAll {visits : Node → List Visit} {next : Nat} {items : List Json}
    {visit : Visit} :
    visit ∈ visitAll visits next items ↔
      ∃ i node inner, objectAt? items i = some node ∧ inner ∈ visits node ∧
        inner.under (next + i) = visit := by
  induction items generalizing next with
  | nil => simp [visitAll, objectAt?]
  | cons first rest ih =>
      rw [visitAll, List.mem_append, ih]
      constructor
      · rintro (here | ⟨i, node, inner, stands, member, rfl⟩)
        · by_cases object : first.isObject
          · rw [if_pos object] at here
            obtain ⟨inner, member, rfl⟩ := List.mem_map.mp here
            exact ⟨0, first, inner, by simp [objectAt?, object], member, rfl⟩
          · simp [object] at here
        · refine ⟨i + 1, node, inner, by simpa [objectAt?] using stands, member, ?_⟩
          rw [Nat.add_right_comm, Nat.add_assoc]
      · rintro ⟨i, node, inner, stands, member, rfl⟩
        cases i with
        | zero =>
            obtain ⟨same, object⟩ : first = node ∧ node.isObject := by
              simpa [objectAt?, Option.filter_eq_some_iff] using stands
            subst same
            exact .inl (by rw [if_pos object]; exact List.mem_map_of_mem member)
        | succ i =>
            refine .inr ⟨i, node, inner, by simpa [objectAt?] using stands, member, ?_⟩
            rw [Nat.add_right_comm, Nat.add_assoc]

theorem mem_visitDefinition {node : Node} {item : Item} {within : Definition → List Visit}
    {visit : Visit} :
    visit ∈ visitDefinition node item within ↔
      ⟨[], node, item⟩ = visit ∨ ∃ found, item = .definition found ∧ visit ∈ within found := by
  cases item <;> simp [visitDefinition, definition?, eq_comm]

theorem mem_visitContract {ignored : List String} {node : Node} {visit : Visit} :
    visit ∈ visitContract ignored node ↔ IsListed ignored node ∧
      (⟨[], node, ofContractNode node⟩ = visit ∨
        ∃ found, ofContractNode node = .definition found ∧
          visit ∈ visitAll (visitMember found) 0 (node.items "subNodes")) := by
  rw [visitContract]
  split
  · next listed => simp [mem_visitDefinition, listed]
  · next unlisted => simp [unlisted]

theorem mem_visitMember {contract : Definition} {node : Node} {visit : Visit} :
    visit ∈ visitMember contract node ↔
      (node.tag? = some "StateVariableDeclaration" ∧
        visit ∈ visitAll (visitDeclaration contract) 0 (node.items "variables")) ∨
      (node.tag? ≠ some "StateVariableDeclaration" ∧
        (⟨[], node, ofResult (Definition.ofNode node contract.name)⟩ = visit ∨
          ∃ found, ofResult (Definition.ofNode node contract.name) = .definition found ∧
            visit ∈ visitAll (visitDeclaration found) 0 (declaredItems node found.kind))) := by
  rw [visitMember]
  split
  · next tagged => simp [tagged]
  · next tagged => simp [mem_visitDefinition, tagged]

theorem mem_visitDeclarations {owner : Definition} {items : List Json} {visit : Visit} :
    visit ∈ visitAll (visitDeclaration owner) 0 items ↔
      ∃ k node, objectAt? items k = some node ∧
        ⟨[k], node, ofDeclaration owner node⟩ = visit := by
  simp [mem_visitAll, visitDeclaration, Visit.under]

theorem under_mem_visitAll {visits : Node → List Visit} {items : List Json} {i : Nat}
    {node : Node} {inner : Visit} (stands : objectAt? items i = some node)
    (member : inner ∈ visits node) : inner.under i ∈ visitAll visits 0 items :=
  mem_visitAll.mpr ⟨i, node, inner, stands, member, by rw [Nat.zero_add]⟩

theorem visited_of_mem {root : Node} {ignored : List String} {visit : Visit}
    (member : visit ∈ visitDocument root ignored) : Visited root ignored visit := by
  obtain ⟨i, outer, inContract, stands, within, rfl⟩ := mem_visitAll.mp member
  rw [Nat.zero_add]
  obtain ⟨listed, rfl | ⟨contract, accepted, inBody⟩⟩ := mem_visitContract.mp within
  · exact .contract stands listed rfl
  · have outerVisited : Visited root ignored ⟨[i], outer, .definition contract⟩ :=
      .contract stands listed accepted
    obtain ⟨j, entry, inEntry, entered, reached, rfl⟩ := mem_visitAll.mp inBody
    rw [Nat.zero_add]
    rcases mem_visitMember.mp reached with
      ⟨tagged, inList⟩ | ⟨tagged, rfl | ⟨owner, accepted, inList⟩⟩
    · obtain ⟨k, node, stands, rfl⟩ := mem_visitDeclarations.mp inList
      exact .stateVariable outerVisited entered tagged stands
    · exact .member outerVisited entered tagged rfl
    · obtain ⟨k, node, stands, rfl⟩ := mem_visitDeclarations.mp inList
      exact .declared (.member outerVisited entered tagged accepted) stands

theorem mem_of_visited {root : Node} {ignored : List String} {visit : Visit}
    (visited : Visited root ignored visit) : visit ∈ visitDocument root ignored := by
  -- An entry of the body of an accepted contract is visited along with the contract.
  have inBody : ∀ {i j : Nat} {outer entry : Node} {contract : Definition} {inner : Visit},
      Visited root ignored ⟨[i], outer, .definition contract⟩ →
      objectAt? (outer.items "subNodes") j = some entry → inner ∈ visitMember contract entry →
      (inner.under j).under i ∈ visitDocument root ignored := by
    intro i j outer entry contract inner accepted entered member
    cases accepted with
    | contract stands listed left =>
        exact under_mem_visitAll stands (mem_visitContract.mpr
          ⟨listed, .inr ⟨contract, left, under_mem_visitAll entered member⟩⟩)
  cases visited with
  | contract stands listed left =>
      exact under_mem_visitAll stands (mem_visitContract.mpr ⟨listed, .inl (by rw [left])⟩)
  | member accepted stands tagged left =>
      exact inBody accepted stands (mem_visitMember.mpr (.inr ⟨tagged, .inl (by rw [left])⟩))
  | stateVariable accepted entered tagged stands =>
      exact inBody accepted entered (mem_visitMember.mpr
        (.inl ⟨tagged, mem_visitDeclarations.mpr ⟨_, _, stands, rfl⟩⟩))
  | declared accepted stands =>
      cases accepted with
      | member outer entered tagged left =>
          exact inBody outer entered (mem_visitMember.mpr
            (.inr ⟨tagged, .inr ⟨_, left, mem_visitDeclarations.mpr ⟨_, _, stands, rfl⟩⟩⟩))

/-- Under positions that grow, visits stand in the order of their places. -/
theorem pairwise_visitAll {visits : Node → List Visit}
    (ordered : ∀ node, (visits node).Pairwise (·.place < ·.place)) (next : Nat)
    (items : List Json) : (visitAll visits next items).Pairwise (·.place < ·.place) := by
  induction items generalizing next with
  | nil => exact .nil
  | cons node rest ih =>
      refine List.pairwise_append.mpr ⟨?_, ih (next + 1), ?_⟩
      · split
        · refine List.pairwise_map.mpr ((ordered node).imp fun less => ?_)
          exact List.cons_lt_cons_iff.mpr (.inr ⟨rfl, less⟩)
        · exact .nil
      · intro first here later after
        obtain ⟨i, other, inner, _, _, rfl⟩ := mem_visitAll.mp after
        split at here
        · obtain ⟨own, _, rfl⟩ := List.mem_map.mp here
          exact List.cons_lt_cons_iff.mpr (.inl (by omega))
        · cases here

/-- A node comes before all that is found within it. -/
theorem pairwise_visitDefinition {visits : Definition → Node → List Visit}
    (ordered : ∀ owner node, (visits owner node).Pairwise (·.place < ·.place))
    (items : Definition → List Json) (node : Node) (item : Item) :
    (visitDefinition node item fun found =>
      visitAll (visits found) 0 (items found)).Pairwise (·.place < ·.place) := by
  cases item with
  | definition found =>
      refine List.pairwise_cons.mpr ⟨?_, pairwise_visitAll (ordered found) 0 _⟩
      intro later after
      obtain ⟨i, other, inner, _, _, rfl⟩ := mem_visitAll.mp after
      exact List.nil_lt_cons _ _
  | declaration _ => exact List.pairwise_singleton _ _
  | fault _ => exact List.pairwise_singleton _ _

theorem pairwise_visitMember (contract : Definition) (node : Node) :
    (visitMember contract node).Pairwise (·.place < ·.place) := by
  have single : ∀ owner node, (visitDeclaration owner node).Pairwise (·.place < ·.place) :=
    fun _ _ => List.pairwise_singleton _ _
  rw [visitMember]
  split
  · exact pairwise_visitAll (single contract) 0 _
  · exact pairwise_visitDefinition single _ node _

theorem pairwise_visitContract (ignored : List String) (node : Node) :
    (visitContract ignored node).Pairwise (·.place < ·.place) := by
  rw [visitContract]
  split
  · exact pairwise_visitDefinition pairwise_visitMember _ node _
  · exact .nil

theorem items_visitAll (visits : Node → List Visit) (next : Nat) (items : List Json) :
    (visitAll visits next items).map Visit.item =
      (items.filter Json.isObject).flatMap fun node => (visits node).map Visit.item := by
  have kept : ∀ i, Visit.item ∘ Visit.under i = Visit.item := fun _ => rfl
  induction items generalizing next with
  | nil => rfl
  | cons node rest ih =>
      by_cases object : node.isObject
      · simp [visitAll, object, ih, kept]
      · simp [visitAll, object, ih]

theorem filter_declaredItems (node : Node) (kind : DefinitionKind) :
    (declaredItems node kind).filter Json.isObject = declared node kind := by
  cases kind with
  | contract => rfl
  | enum => rfl
  | struct => exact (Node.children_eq_filter_items node "members").symm
  | function | event | modifier =>
      simp only [declaredItems, declared]
      cases node.child? "parameters" <;> exact (Node.children_eq_filter_items _ _).symm

theorem items_visitDeclarations (owner : Definition) (items : List Json) :
    (visitAll (visitDeclaration owner) 0 items).map Visit.item =
      (items.filter Json.isObject).map (ofDeclaration owner) := by
  rw [items_visitAll, List.map_eq_flatMap]
  rfl

theorem items_visitMember (contract : Definition) (node : Node) :
    (visitMember contract node).map Visit.item = ofMember contract node := by
  rw [visitMember, ofMember]
  split
  · rw [items_visitDeclarations, Node.children_eq_filter_items]
  · cases Definition.ofNode node contract.name with
    | ok found =>
        have within : (visitAll (visitDeclaration found) 0
            (declaredItems node found.kind)).map Visit.item =
              (declared node found.kind).map (ofDeclaration found) := by
          rw [items_visitDeclarations, filter_declaredItems]
        exact congrArg (List.cons (definition found)) within
    | error fault => rfl

theorem items_visitContract {ignored : List String} {node : Node}
    (tagged : node.tag? = some DefinitionKind.contract.tag) :
    (visitContract ignored node).map Visit.item = ofContract ignored node := by
  have body : ∀ found : Definition,
      (visitAll (visitMember found) 0 (node.items "subNodes")).map Visit.item =
        (node.children "subNodes").flatMap (ofMember found) := by
    intro found
    rw [items_visitAll, Node.children_eq_filter_items]
    simp only [items_visitMember]
  rw [visitContract, ofContract]
  cases named : node.name? with
  | none =>
      have listed : IsListed ignored node := ⟨tagged, by simp [named]⟩
      rw [if_pos listed, ofContractNode, named]
      rfl
  | some name =>
      by_cases passed : name ∈ ignored
      · have unlisted : ¬ IsListed ignored node := fun listed => listed.2 name named passed
        simp [unlisted, passed]
      · have listed : IsListed ignored node := ⟨tagged, by simpa [named] using passed⟩
        rw [if_pos listed, ofContractNode, named]
        simp only [List.contains_eq_mem, passed, decide_false, Bool.false_eq_true, ↓reduceIte]
        cases Definition.ofNode node name with
        | ok found => exact congrArg (List.cons (definition found)) (body found)
        | error fault => rfl

/-- Contracts are picked from the children of a document by their tag. -/
theorem flatMap_contracts {α : Type} (f : Node → List α) (root : Node) :
    (contracts root).flatMap f = (root.children "children").flatMap fun node =>
      if node.tag? = some DefinitionKind.contract.tag then f node else [] := by
  rw [contracts]
  induction root.children "children" with
  | nil => rfl
  | cons node rest ih =>
      by_cases tagged : node.tag? = some DefinitionKind.contract.tag
      · simp [tagged, ih]
      · simp [tagged, ih]

theorem items_visitDocument (root : Node) (ignored : List String) :
    (visitDocument root ignored).map Visit.item =
      (contracts root).flatMap (ofContract ignored) := by
  rw [visitDocument, items_visitAll, flatMap_contracts, Node.children_eq_filter_items]
  congr 1
  funext node
  split
  · next tagged => exact items_visitContract tagged
  · next other =>
      have unlisted : ¬ IsListed ignored node := fun listed => other listed.1
      simp [visitContract, unlisted]

/-- A definition leaves a row of the objects or a diagnostic, and a declaration leaves a row
of the parameters or a diagnostic: one of the two, and nothing else. -/
def Visit.LeavesOne (visit : Visit) : Prop :=
  if visit.place.length = 3 then
    visit.left.objects = [] ∧ visit.left.parameters.length + visit.left.diagnostics.length = 1
  else
    visit.left.parameters = [] ∧ visit.left.objects.length + visit.left.diagnostics.length = 1

theorem leavesOne_of_visited {root : Node} {ignored : List String} {visit : Visit}
    (visited : Visited root ignored visit) : visit.LeavesOne := by
  have ofDeclaration_leaves : ∀ (place : List Nat) (owner : Definition) (node : Node),
      place.length = 3 → Visit.LeavesOne ⟨place, node, ofDeclaration owner node⟩ := by
    intro place owner node long
    rw [Visit.LeavesOne, if_pos long, ofDeclaration]
    cases Declaration.ofNode node owner with
    | ok found => exact ⟨rfl, rfl⟩
    | error found => exact ⟨rfl, rfl⟩
  have ofResult_leaves : ∀ (place : List Nat) (node : Node) (result : Except Fault Definition),
      place.length ≠ 3 → Visit.LeavesOne ⟨place, node, ofResult result⟩ := by
    intro place node result short
    rw [Visit.LeavesOne, if_neg short]
    cases result with
    | ok found => exact ⟨rfl, rfl⟩
    | error found => exact ⟨rfl, rfl⟩
  cases visited with
  | contract stands listed left =>
      subst left
      rw [ofContractNode]
      split
      · exact ofResult_leaves _ _ (.error _) (by simp)
      · exact ofResult_leaves _ _ _ (by simp)
  | member accepted stands tagged left =>
      subst left
      exact ofResult_leaves _ _ _ (by simp)
  | stateVariable accepted entered tagged stands => exact ofDeclaration_leaves _ _ _ rfl
  | declared accepted stands => exact ofDeclaration_leaves _ _ _ rfl

namespace Tables

theorem extract_of_children {root : Node} {items : List Json}
    (found : root.member? "children" = some (.array items)) (ignored : List String) :
    extract root ignored =
      .ok (ofItems ((Item.contracts root).flatMap (Item.ofContract ignored))) := by
  have field : root.field? "children" = some (.array items) := by
    simp [Node.field?, found]
  cases root with
  | object members => simp [extract, ofDocument, Json.isObject, field, Except.map]
  | null | bool _ | int _ | float _ | string _ | array _ => cases found

theorem children_of_extract {root : Node} {ignored : List String} {tables : Tables}
    (extracted : extract root ignored = .ok tables) :
    ∃ members items, root = .object members ∧
      members.lookup "children" = some (.array items) := by
  cases root with
  | object members =>
      simp only [extract, ofDocument] at extracted
      split at extracted
      · cases extracted
      · split at extracted
        · next items field =>
            refine ⟨members, items, rfl, ?_⟩
            simp only [Node.field?, Json.member?] at field
            split at field
            · cases field
            · exact field
        · cases extracted
  | null | bool _ | int _ | float _ | string _ | array _ => cases extracted

/-- Every item is a row of one table or a diagnostic, and of no other table. -/
theorem sizes_ofItems (items : List Item) :
    (ofItems items).objects.length + (ofItems items).parameters.length +
      (ofItems items).diagnostics.length = items.length := by
  simp only [ofItems, List.length_map]
  induction items with
  | nil => rfl
  | cons item rest ih =>
      cases item <;> simp only [List.filterMap_cons, definition?, declaration?, fault?,
        List.length_cons] <;> omega

theorem ofItems_cons (item : Item) (rest : List Item) :
    (ofItems (item :: rest)).objects = (ofItems [item]).objects ++ (ofItems rest).objects ∧
      (ofItems (item :: rest)).parameters =
        (ofItems [item]).parameters ++ (ofItems rest).parameters ∧
      (ofItems (item :: rest)).diagnostics =
        (ofItems [item]).diagnostics ++ (ofItems rest).diagnostics := by
  cases item <;> exact ⟨rfl, rfl, rfl⟩

theorem ofItems_visits (visits : List Visit) :
    (ofItems (visits.map Visit.item)).objects = visits.flatMap (·.left.objects) ∧
      (ofItems (visits.map Visit.item)).parameters = visits.flatMap (·.left.parameters) ∧
      (ofItems (visits.map Visit.item)).diagnostics = visits.flatMap (·.left.diagnostics) := by
  induction visits with
  | nil => exact ⟨rfl, rfl, rfl⟩
  | cons visit rest ih =>
      obtain ⟨objects, parameters, diagnostics⟩ := ih
      obtain ⟨first, second, third⟩ := ofItems_cons visit.item (rest.map Visit.item)
      rw [objects] at first
      rw [parameters] at second
      rw [diagnostics] at third
      exact ⟨first, second, third⟩

/-- The visits account for the tables: each leaves one row or diagnostic, in the order of
the places, and there are no others. -/
structure AccountedBy (tables : Tables) (visits : List Visit) : Prop where
  ordered : visits.Pairwise (·.place < ·.place)
  single : ∀ visit ∈ visits, visit.LeavesOne
  objects : tables.objects = visits.flatMap (·.left.objects)
  parameters : tables.parameters = visits.flatMap (·.left.parameters)
  diagnostics : tables.diagnostics = visits.flatMap (·.left.diagnostics)
  sizes : tables.objects.length + tables.parameters.length + tables.diagnostics.length =
    visits.length

theorem ofItems_accountedBy {visits : List Visit}
    (ordered : visits.Pairwise (·.place < ·.place))
    (single : ∀ visit ∈ visits, visit.LeavesOne) :
    (ofItems (visits.map Visit.item)).AccountedBy visits where
  ordered := ordered
  single := single
  objects := (ofItems_visits visits).1
  parameters := (ofItems_visits visits).2.1
  diagnostics := (ofItems_visits visits).2.2
  sizes := by rw [sizes_ofItems, List.length_map]

/-- A document has tables exactly if it is an object with an array of `children`, and the
tables account for every node that is to be visited, once and in document order, and for
nothing else. -/
theorem extract_accounts_for_every_node (root : Node) (ignored : List String) :
    ((∃ tables, extract root ignored = .ok tables) ↔
      ∃ members items, root = .object members ∧
        members.lookup "children" = some (.array items)) ∧
    ∀ tables, extract root ignored = .ok tables →
      ∃ visits, (∀ visit, visit ∈ visits ↔ Visited root ignored visit) ∧
        tables.AccountedBy visits := by
  constructor
  · constructor
    · rintro ⟨tables, extracted⟩
      exact children_of_extract extracted
    · rintro ⟨members, items, rfl, found⟩
      have children : (Json.object members).member? "children" = some (.array items) := found
      exact ⟨_, extract_of_children children ignored⟩
  · intro tables extracted
    have ordered := pairwise_visitAll (pairwise_visitContract ignored) 0 (root.items "children")
    refine ⟨visitDocument root ignored, fun visit => ⟨visited_of_mem, mem_of_visited⟩, ?_⟩
    rw [eq_ofItems_of_extract extracted, ← items_visitDocument]
    exact ofItems_accountedBy ordered fun visit member =>
      leavesOne_of_visited (visited_of_mem member)

def vault : Node :=
  Document.ofContracts
    [.object [("type", .string "PragmaDirective")], Document.contract "SafeMath" 1 2 [],
      .object [("type", .string DefinitionKind.contract.tag)],
      Document.contract "Vault" 3 9
        [.null, .object [("type", .string "UsingForDeclaration")],
          .object [("type", .string "StateVariableDeclaration"),
            ("variables", .array [Document.word "total" 5, .object []])],
          Document.function "pay" 7 ["value", "note"]]]

theorem extract_accounts_for_vault :
    ∃ tables, extract vault ["SafeMath"] = .ok tables ∧
      ∃ visits, (∀ visit, visit ∈ visits ↔ Visited vault ["SafeMath"] visit) ∧
        tables.AccountedBy visits :=
  ⟨_, rfl, (extract_accounts_for_every_node vault ["SafeMath"]).2 _ rfl⟩

example : (visitDocument vault ["SafeMath"]).map Visit.place =
    [[2], [3], [3, 1], [3, 2, 0], [3, 2, 1], [3, 3], [3, 3, 0], [3, 3, 1]] := by decide +kernel

end Tables
end ContractTables
