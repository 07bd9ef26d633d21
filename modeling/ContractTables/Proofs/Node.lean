import ContractTables.Definition

/-!
Which members of a node are read. Every access to a node goes through one of its members,
so nodes that agree on some members agree on what is read from them, and rewriting the
values under one key changes nothing that is read under others.
-/
namespace ContractTables

namespace Node

/-- All items of an array-valued field, objects or not; any other field has none. -/
def items (node : Node) (key : String) : List Json :=
  match node.field? key with
  | some (.array items) => items
  | _ => []

theorem children_eq_filter_items (node : Node) (key : String) :
    node.children key = (node.items key).filter Json.isObject := by
  rw [children, items]
  cases node.field? key with
  | none => rfl
  | some value => cases value <;> rfl

section Agreement

variable {first second : Node} {key : String}

theorem field?_congr (same : first.member? key = second.member? key) :
    first.field? key = second.field? key := by
  rw [field?, field?, same]

theorem text?_congr (same : first.field? key = second.field? key) :
    first.text? key = second.text? key := by
  rw [text?, text?, same]

theorem child?_congr (same : first.field? key = second.field? key) :
    first.child? key = second.child? key := by
  rw [child?, child?, same]

theorem children_congr (same : first.field? key = second.field? key) :
    first.children key = second.children key := by
  rw [children, children, same]

theorem line?_congr (same : first.member? "loc" = second.member? "loc") (edge : String) :
    first.line? edge = second.line? edge := by
  rw [line?, line?, same]

end Agreement

def Agree (keys : List String) (first second : Node) : Prop :=
  ∀ key ∈ keys, first.member? key = second.member? key

theorem tag?_congr {first second : Node} (same : Agree ["type", "kind"] first second) :
    first.tag? = second.tag? := by
  rw [tag?, tag?, text?_congr (field?_congr (same "type" (by simp))),
    text?_congr (field?_congr (same "kind" (by simp)))]

def mapMember (key : String) (f : Json → Json) : Node → Node
  | .object members => .object (members.map fun (k, v) => (k, if k = key then f v else v))
  | other => other

@[simp] theorem isObject_mapMember (key : String) (f : Json → Json) (node : Node) :
    (node.mapMember key f).isObject = node.isObject := by
  cases node <;> rfl

theorem member?_mapMember_self (key : String) (f : Json → Json) (node : Node) :
    (node.mapMember key f).member? key = (node.member? key).map f := by
  cases node with
  | object members =>
      simp only [mapMember, Json.member?]
      induction members with
      | nil => rfl
      | cons first rest ih =>
          obtain ⟨k, v⟩ := first
          by_cases same : key = k
          · simp [same]
          · simp [List.lookup_cons, beq_eq_false_iff_ne.mpr same, ih]
  | null | bool _ | int _ | float _ | string _ | array _ => rfl

theorem member?_mapMember_of_ne {key other : String} (different : other ≠ key)
    (f : Json → Json) (node : Node) :
    (node.mapMember key f).member? other = node.member? other := by
  cases node with
  | object members =>
      simp only [mapMember, Json.member?]
      induction members with
      | nil => rfl
      | cons first rest ih =>
          obtain ⟨k, v⟩ := first
          by_cases same : other = k
          · simp [← same, different]
          · simp [List.lookup_cons, beq_eq_false_iff_ne.mpr same, ih]
  | null | bool _ | int _ | float _ | string _ | array _ => rfl

theorem agree_mapMember {keys : List String} {key : String} (unread : key ∉ keys)
    (f : Json → Json) (node : Node) : Agree keys (node.mapMember key f) node := by
  intro other member
  have different : other ≠ key := by
    rintro rfl
    exact unread member
  exact member?_mapMember_of_ne different f node

end Node

namespace Definition

def keys : List String :=
  ["type", "kind", "name", "loc", "visibility", "modifiers", "baseContracts"]

structure ReadAlike (first second : Node) : Prop where
  tag : first.tag? = second.tag?
  name : first.name? = second.name?
  start : first.startLine? = second.startLine?
  stop : first.endLine? = second.endLine?
  visibility : first.text? "visibility" = second.text? "visibility"
  modifiers : first.children "modifiers" = second.children "modifiers"
  bases : first.children "baseContracts" = second.children "baseContracts"
  members : DefinitionKind.ofTag? second.tag = some .enum →
    first.children "members" = second.children "members"

variable {first second : Node}

theorem memberNames_congr {key : String} (same : first.children key = second.children key) :
    memberNames first key = memberNames second key := by
  rw [memberNames, memberNames, same]

namespace ReadAlike

variable (alike : ReadAlike first second)

include alike

theorem tag_eq : first.tag = second.tag := by
  rw [Node.tag, Node.tag, alike.tag]

theorem span_eq : LineSpan.ofNode first = LineSpan.ofNode second := by
  rw [LineSpan.ofNode, LineSpan.ofNode, alike.tag_eq, alike.start, alike.stop]

theorem ofContract_eq (contract : String) (span : LineSpan) :
    ofContract first contract span = ofContract second contract span := by
  rw [ofContract, ofContract, baseNames, baseNames, alike.bases]

theorem ofMember_eq {kind : DefinitionKind} (tagged : DefinitionKind.ofTag? second.tag = some kind)
    (name contract : String) (span : LineSpan) :
    ofMember first kind name contract span = ofMember second kind name contract span := by
  rw [ofMember, ofMember, alike.visibility, memberNames_congr alike.modifiers]
  by_cases enumeration : kind = .enum
  · rw [memberNames_congr (alike.members (enumeration ▸ tagged))]
  · simp [enumeration]

theorem ofNode_eq (contract : String) : ofNode first contract = ofNode second contract := by
  rw [ofNode, ofNode, alike.tag_eq, alike.start, alike.span_eq, alike.name]
  cases tagged : DefinitionKind.ofTag? second.tag with
  | none => rfl
  | some kind => simp only [alike.ofContract_eq, alike.ofMember_eq tagged]

end ReadAlike

/-- A definition is read from these members alone, and from its `members` if it is an
enumeration. -/
theorem ofNode_congr (same : Node.Agree keys first second)
    (members : DefinitionKind.ofTag? second.tag = some .enum →
      first.member? "members" = second.member? "members") (contract : String) :
    ofNode first contract = ofNode second contract := by
  have location : first.member? "loc" = second.member? "loc" := same "loc" (by simp [keys])
  have field (key : String) (read : key ∈ keys) : first.field? key = second.field? key :=
    Node.field?_congr (same key read)
  apply ReadAlike.ofNode_eq
  exact {
    tag := Node.tag?_congr fun key member => same key (List.mem_append_left _ member)
    name := Node.text?_congr (field "name" (by simp [keys]))
    start := Node.line?_congr location "start"
    stop := Node.line?_congr location "end"
    visibility := Node.text?_congr (field "visibility" (by simp [keys]))
    modifiers := Node.children_congr (field "modifiers" (by simp [keys]))
    bases := Node.children_congr (field "baseContracts" (by simp [keys]))
    members := fun enumeration =>
      Node.children_congr (Node.field?_congr (members enumeration)) }

theorem tag_of_ofNode {node : Node} {contract : String} {found : Definition}
    (accepted : ofNode node contract = .ok found) :
    DefinitionKind.ofTag? node.tag = some found.kind := by
  rw [ofNode] at accepted
  split at accepted
  · cases accepted
  · next kind tagged =>
      split at accepted
      · cases accepted
      · split at accepted
        · next isContract =>
            subst isContract
            cases accepted
            exact tagged
        · split at accepted
          · cases accepted
          · cases accepted
            exact tagged

end Definition
end ContractTables
