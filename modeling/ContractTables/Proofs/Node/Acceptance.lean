import ContractTables.Declaration
import ContractTables.Proofs.Node

/-!
Which nodes are accepted. A node is checked in a fixed order for what its definition or its
declaration cannot do without. It is accepted exactly if it passes every check; otherwise the
fault is that of the first check it fails, with the line where the node starts if it has one.
Nodes that hold the same under the keys that are read give the same result.
-/
namespace ContractTables

/-! What a node holds. -/

theorem Json.word?_eq_some_iff {value : Json} {word : Nat} :
    value.word? = some word ↔ value = .int word ∧ word ≤ maxWord := by
  cases value with
  | int number =>
      cases number with
      | ofNat n =>
          have same : Json.int (.ofNat n) = .int word ↔ n = word := by
            rw [Json.int.injEq]
            exact Int.ofNat_inj
          rw [word?, same]
          by_cases small : n ≤ maxWord
          · rw [if_pos small, Option.some.injEq]
            exact ⟨fun same => ⟨same, same ▸ small⟩, And.left⟩
          · rw [if_neg small]
            exact ⟨nofun, fun ⟨same, fits⟩ => absurd (same ▸ fits) small⟩
      | negSucc n => simp [word?]
  | null | bool _ | float _ | string _ | array _ | object _ => simp [word?]

namespace Node

def HasText (node : Node) (key text : String) : Prop := node.member? key = some (.string text)

inductive Tagged (node : Node) (tag : String) : Prop
  | type (found : node.HasText "type" tag)
  | kind (untyped : ∀ text, ¬ node.HasText "type" text) (found : node.HasText "kind" tag)

def HasLine (node : Node) (edge : String) (line : Nat) : Prop :=
  ∃ location place, node.member? "loc" = some location ∧ location.member? edge = some place ∧
    place.member? "line" = some (.int line) ∧ line ≤ Json.maxWord

theorem text?_eq_some_iff {node : Node} {key text : String} :
    node.text? key = some text ↔ node.HasText key text := by
  rw [text?, field?, HasText]
  cases node.member? key with
  | none => simp
  | some value => cases value <;> simp [Json.text?]

theorem child?_eq_some_iff {node child : Node} {key : String} :
    node.child? key = some child ↔ node.member? key = some child ∧ child.isObject := by
  rw [child?, field?]
  cases node.member? key with
  | none => simp
  | some value =>
      cases value with
      | null =>
          constructor
          · intro found
            cases found
          · rintro ⟨same, isObject⟩
            cases same
            cases isObject
      | bool _ | int _ | float _ | string _ | array _ | object _ => simp [Option.filter_eq_some_iff]

theorem tag?_eq_some_iff {node : Node} {tag : String} :
    node.tag? = some tag ↔ node.Tagged tag := by
  rw [tag?]
  cases typed : node.text? "type" with
  | some text =>
      have found := text?_eq_some_iff.mp typed
      constructor
      · rintro ⟨⟩
        exact .type found
      · rintro (same | ⟨untyped, _⟩)
        · rw [text?_eq_some_iff.mpr same] at typed
          exact typed.symm
        · exact absurd found (untyped text)
  | none =>
      -- A `type` that is no text counts as little as one that is missing.
      have untyped : ∀ text, ¬ node.HasText "type" text := by
        intro text found
        rw [text?_eq_some_iff.mpr found] at typed
        cases typed
      constructor
      · intro found
        exact .kind untyped (text?_eq_some_iff.mp found)
      · rintro (found | ⟨_, found⟩)
        · exact absurd found (untyped tag)
        · exact text?_eq_some_iff.mpr found

theorem line?_eq_some_iff {node : Node} {edge : String} {line : Nat} :
    node.line? edge = some line ↔ node.HasLine edge line := by
  simp only [line?, HasLine, Option.bind_eq_bind, Option.bind_eq_some_iff,
    Json.word?_eq_some_iff]
  constructor
  · rintro ⟨location, located, place, placed, number, numbered, rfl, small⟩
    exact ⟨location, place, located, placed, numbered, small⟩
  · rintro ⟨location, place, located, placed, numbered, small⟩
    exact ⟨location, located, place, placed, _, numbered, rfl, small⟩

theorem tag_eq_iff {node : Node} {kind : DefinitionKind} :
    node.tag = kind.tag ↔ node.Tagged kind.tag := by
  rw [← tag?_eq_some_iff, tag]
  cases node.tag? with
  | none => cases kind <;> simp [DefinitionKind.tag]
  | some text => simp

structure Alike (edges keys : List String) (first second : Node) : Prop where
  tag : ∀ tag, first.Tagged tag ↔ second.Tagged tag
  name : ∀ name, first.HasText "name" name ↔ second.HasText "name" name
  line : ∀ edge ∈ edges, ∀ line, first.HasLine edge line ↔ second.HasLine edge line
  field : ∀ key ∈ keys, first.field? key = second.field? key

namespace Alike

variable {edges keys : List String} {first second : Node} (alike : Alike edges keys first second)

include alike

theorem tag?_eq : first.tag? = second.tag? := by
  apply Option.ext
  intro tag
  rw [tag?_eq_some_iff, tag?_eq_some_iff, alike.tag]

theorem name?_eq : first.name? = second.name? := by
  apply Option.ext
  intro name
  rw [name?, name?, text?_eq_some_iff, text?_eq_some_iff, alike.name]

theorem line?_eq {edge : String} (member : edge ∈ edges) :
    first.line? edge = second.line? edge := by
  apply Option.ext
  intro line
  rw [line?_eq_some_iff, line?_eq_some_iff, alike.line edge member]

end Alike
end Node

/-! Checks and the first one that fails. -/

def Required.HeldBy (node : Node) : Required → Prop
  | startLine => ∃ line, node.HasLine "start" line
  | endLine => ∃ line, node.HasLine "end" line
  | name => ∃ text, node.HasText "name" text
  | typeName => ∃ members, node.member? "typeName" = some (.object members)

structure Check where
  Passes : Node → Prop
  fault : Node → Fault

namespace Check

def requires (tag : Node → String) (missing : Required) : Check where
  Passes node := missing.HeldBy node
  fault node := .malformed (tag node) missing node.startLine?

inductive FirstFailure (node : Node) : List Check → Fault → Prop
  | here {check : Check} {rest : List Check} (fails : ¬ check.Passes node) :
      FirstFailure node (check :: rest) (check.fault node)
  | later {check : Check} {rest : List Check} {fault : Fault} (passes : check.Passes node)
      (first : FirstFailure node rest fault) : FirstFailure node (check :: rest) fault

variable {node : Node} {checks : List Check}

theorem FirstFailure.not_passes {fault : Fault} (first : FirstFailure node checks fault) :
    ¬ ∀ check ∈ checks, check.Passes node := by
  intro passes
  induction first with
  | here fails => exact fails (passes _ List.mem_cons_self)
  | later _ _ ih => exact ih fun check member => passes check (List.mem_cons_of_mem _ member)

theorem FirstFailure.unique {fault other : Fault} (first : FirstFailure node checks fault)
    (second : FirstFailure node checks other) : fault = other := by
  induction first with
  | here fails =>
      cases second with
      | here _ => rfl
      | later passes _ => exact absurd passes fails
  | later passes _ ih =>
      cases second with
      | here fails => exact absurd passes fails
      | later _ second => exact ih second

theorem FirstFailure.line_eq {fault : Fault} (first : FirstFailure node checks fault)
    (lines : ∀ check ∈ checks, (check.fault node).line = node.startLine?) :
    fault.line = node.startLine? := by
  induction first with
  | here _ => exact lines _ List.mem_cons_self
  | later _ _ ih => exact ih fun check member => lines check (List.mem_cons_of_mem _ member)

def Decided {α : Type} (node : Node) (checks : List Check) : Except Fault α → Prop
  | .ok _ => ∀ check ∈ checks, check.Passes node
  | .error fault => FirstFailure node checks fault

section Decided

variable {α : Type} {check : Check} {rest : List Check}

theorem Decided.here (fails : ¬ check.Passes node) {fault : Fault}
    (same : check.fault node = fault) :
    Decided (α := α) node (check :: rest) (.error fault) := by
  subst same
  exact FirstFailure.here fails

theorem Decided.later (passes : check.Passes node) {result : Except Fault α}
    (decided : Decided node rest result) : Decided node (check :: rest) result := by
  cases result with
  | ok found => exact List.forall_mem_cons.mpr ⟨passes, decided⟩
  | error fault => exact FirstFailure.later passes decided

end Decided

theorem Decided.exact {α : Type} {result : Except Fault α}
    (decided : Decided node checks result) :
    ((∃ found, result = .ok found) ↔ ∀ check ∈ checks, check.Passes node) ∧
      ∀ fault, result = .error fault ↔ FirstFailure node checks fault := by
  cases result with
  | ok found =>
      refine ⟨⟨fun _ => decided, fun _ => ⟨found, rfl⟩⟩, fun fault => ?_⟩
      exact ⟨nofun, fun first => absurd decided first.not_passes⟩
  | error fault =>
      refine ⟨⟨nofun, fun passes => absurd passes (FirstFailure.not_passes decided)⟩, ?_⟩
      intro other
      constructor
      · rintro ⟨⟩
        exact decided
      · intro first
        rw [FirstFailure.unique decided first]

/-- Nodes are accepted that pass all checks, and others refused for the first one they fail,
with the line where they start as far as they have one. What becomes of a node hangs on its tag
and name, its lines at these edges and its fields under these keys. -/
structure Exact {α : Type} (checks : List Check) (edges keys : List String)
    (read : Node → Except Fault α) : Prop where
  accepts : ∀ node, (∃ found, read node = .ok found) ↔ ∀ check ∈ checks, check.Passes node
  refuses : ∀ node fault, read node = .error fault ↔ FirstFailure node checks fault
  locates : ∀ node fault, read node = .error fault →
    ∀ line, fault.line = some line ↔ node.HasLine "start" line
  reads : ∀ first second, first.Alike edges keys second → read first = read second

theorem exact_of_decided {α : Type} {edges keys : List String} {read : Node → Except Fault α}
    (decided : ∀ node, Decided node checks (read node))
    (lines : ∀ check ∈ checks, ∀ node, (check.fault node).line = node.startLine?)
    (reads : ∀ first second, first.Alike edges keys second → read first = read second) :
    Exact checks edges keys read where
  accepts node := (decided node).exact.1
  refuses node := (decided node).exact.2
  locates node fault refused line := by
    have first := ((decided node).exact.2 fault).mp refused
    rw [first.line_eq fun check member => lines check member node]
    exact Node.line?_eq_some_iff
  reads := reads

end Check

/-! Definitions and declarations. -/

namespace Required

variable {node : Node}

@[simp] theorem heldBy_startLine : startLine.HeldBy node ↔ node.startLine?.isSome := by
  rw [Option.isSome_iff_exists]
  exact exists_congr fun _ => Node.line?_eq_some_iff.symm

@[simp] theorem heldBy_endLine : endLine.HeldBy node ↔ node.endLine?.isSome := by
  rw [Option.isSome_iff_exists]
  exact exists_congr fun _ => Node.line?_eq_some_iff.symm

@[simp] theorem heldBy_name : name.HeldBy node ↔ node.name?.isSome := by
  rw [Option.isSome_iff_exists]
  exact exists_congr fun _ => Node.text?_eq_some_iff.symm

@[simp] theorem heldBy_typeName : typeName.HeldBy node ↔ (node.child? "typeName").isSome := by
  simp only [Option.isSome_iff_exists, Node.child?_eq_some_iff]
  constructor
  · rintro ⟨members, found⟩
    exact ⟨_, found, rfl⟩
  · rintro ⟨child, found, isObject⟩
    cases child with
    | object members => exact ⟨members, found⟩
    | null | bool _ | int _ | float _ | string _ | array _ => cases isObject

end Required

namespace Definition

def checks : List Check :=
  [{ Passes := fun node => ∃ kind : DefinitionKind, node.Tagged kind.tag
     fault := fun node => .unsupported node.tag node.startLine? },
   .requires Node.tag .startLine,
   .requires Node.tag .endLine,
   { Passes := fun node => node.Tagged DefinitionKind.contract.tag ∨ Required.name.HeldBy node
     fault := fun node => .malformed node.tag .name node.startLine? }]

theorem tagged_iff {node : Node} {kind : DefinitionKind} :
    node.Tagged kind.tag ↔ DefinitionKind.ofTag? node.tag = some kind := by
  rw [DefinitionKind.ofTag?_eq_some_iff, Node.tag_eq_iff]

theorem decided_ofNode (node : Node) (contract : String) :
    Check.Decided node checks (ofNode node contract) := by
  rw [ofNode, checks]
  cases tagged : DefinitionKind.ofTag? node.tag with
  | none => exact .here (by simp [tagged_iff, tagged]) rfl
  | some kind =>
      refine .later (by simp [tagged_iff, tagged]) ?_
      rw [LineSpan.ofNode]
      cases first : node.startLine? with
      | none => exact .here (by simp [Check.requires, first]) (by simp [Check.requires, first])
      | some start =>
          refine .later (by simp [Check.requires, first]) ?_
          cases last : node.endLine? with
          | none => exact .here (by simp [Check.requires, last]) (by simp [Check.requires, first])
          | some stop =>
              refine .later (by simp [Check.requires, last]) ?_
              dsimp only
              by_cases isContract : kind = .contract
              · -- The name of a contract is given, so that of its node is not asked for.
                rw [if_pos isContract]
                exact .later (by simp [tagged_iff, tagged, isContract]) (List.forall_mem_nil _)
              · rw [if_neg isContract]
                cases named : node.name? with
                | some name => exact .later (by simp [named]) (List.forall_mem_nil _)
                | none =>
                    exact .here (by simp [tagged_iff, tagged, isContract, named]) (by simp [first])

theorem ofNode_eq_of_alike {first second : Node}
    (alike : first.Alike ["start", "end"] ["visibility", "modifiers", "members", "baseContracts"]
      second) (contract : String) : ofNode first contract = ofNode second contract := by
  apply ReadAlike.ofNode_eq
  exact {
    tag := alike.tag?_eq
    name := alike.name?_eq
    start := alike.line?_eq (by simp)
    stop := alike.line?_eq (by simp)
    visibility := Node.text?_congr (alike.field "visibility" (by simp))
    modifiers := Node.children_congr (alike.field "modifiers" (by simp))
    bases := Node.children_congr (alike.field "baseContracts" (by simp))
    members := fun _ => Node.children_congr (alike.field "members" (by simp)) }

end Definition

namespace Declaration

def checks : List Check :=
  [.startLine, .name, .typeName].map (.requires fun node => node.tag?.getD "VariableDeclaration")

theorem decided_ofNode (node : Node) (owner : Definition) :
    Check.Decided node checks (ofNode node owner) := by
  rw [ofNode, checks]
  cases first : node.startLine? with
  | none => exact .here (by simp [Check.requires, first]) (by simp [Check.requires, first])
  | some line =>
      refine .later (by simp [Check.requires, first]) ?_
      cases named : node.name? with
      | none => exact .here (by simp [Check.requires, named]) (by simp [Check.requires, first])
      | some name =>
          refine .later (by simp [Check.requires, named]) ?_
          cases typed : node.child? "typeName" with
          | none => exact .here (by simp [Check.requires, typed]) (by simp [Check.requires, first])
          | some type => exact .later (by simp [Check.requires, typed]) (List.forall_mem_nil _)

theorem ofNode_eq_of_alike {first second : Node}
    (alike : first.Alike ["start"]
      ["typeName", "storageLocation", "initialValue", "expression", "visibility"] second)
    (owner : Definition) : ofNode first owner = ofNode second owner := by
  have start : first.startLine? = second.startLine? := alike.line?_eq (by simp)
  have type : first.child? "typeName" = second.child? "typeName" :=
    Node.child?_congr (alike.field "typeName" (by simp))
  have location : first.text? "storageLocation" = second.text? "storageLocation" :=
    Node.text?_congr (alike.field "storageLocation" (by simp))
  have visibility : first.text? "visibility" = second.text? "visibility" :=
    Node.text?_congr (alike.field "visibility" (by simp))
  have initial : initialText first = initialText second := by
    rw [initialText, initialText, alike.field "initialValue" (by simp),
      alike.field "expression" (by simp)]
  simp only [ofNode, typeText, alike.tag?_eq, alike.name?_eq, start, type, location, visibility,
    initial]

end Declaration

/-- Definitions and declarations are read exactly from the nodes that pass their checks. -/
theorem nodes_read_exactly :
    (∀ contract, Check.Exact Definition.checks ["start", "end"]
      ["visibility", "modifiers", "members", "baseContracts"]
      fun node => Definition.ofNode node contract) ∧
    ∀ owner, Check.Exact Declaration.checks ["start"]
      ["typeName", "storageLocation", "initialValue", "expression", "visibility"]
      fun node => Declaration.ofNode node owner := by
  constructor
  · intro contract
    apply Check.exact_of_decided
    · exact fun node => Definition.decided_ofNode node contract
    · simp [Definition.checks, Check.requires, Fault.line]
    · exact fun _ _ alike => Definition.ofNode_eq_of_alike alike contract
  · intro owner
    apply Check.exact_of_decided
    · exact fun node => Declaration.decided_ofNode node owner
    · simp [Declaration.checks, Check.requires, Fault.line]
    · exact fun _ _ alike => Declaration.ofNode_eq_of_alike alike owner

def castEvent : Node :=
  .object [("kind", .string "EventDefinition"), ("loc", .object [("end", .object
    [("line", .string "9")]), ("start", .object [("column", .int 2), ("line", .int 7)])]),
    ("name", .string "Cast"), ("type", .null)]

def castEventOfTwo : Node :=
  .object [("loc", .object [("end", .array []), ("start", .object [("line", .int 7)])]),
    ("name", .string "Cast"), ("parameters", .array [.object [], .object []]),
    ("type", .string "EventDefinition")]

theorem alike_castEvent : castEvent.Alike ["start", "end"]
    ["visibility", "modifiers", "members", "baseContracts"] castEventOfTwo where
  tag tag := by
    rw [← Node.tag?_eq_some_iff, ← Node.tag?_eq_some_iff]
    rfl
  name name := by
    rw [← Node.text?_eq_some_iff, ← Node.text?_eq_some_iff]
    rfl
  line edge member line := by
    have same : ∀ edge ∈ ["start", "end"], castEvent.line? edge = castEventOfTwo.line? edge := by
      decide
    rw [← Node.line?_eq_some_iff, ← Node.line?_eq_some_iff, same edge member]
  field key member := by
    simp only [List.mem_cons, List.not_mem_nil, or_false] at member
    rcases member with rfl | rfl | rfl | rfl <;> rfl

theorem castEvent_refused :
    Check.FirstFailure castEvent Definition.checks
        (.malformed "EventDefinition" .endLine (some 7)) ∧
      castEvent.HasLine "start" 7 ∧
      Definition.ofNode castEvent "Poll" = Definition.ofNode castEventOfTwo "Poll" := by
  have refused : Definition.ofNode castEvent "Poll" =
      .error (.malformed "EventDefinition" .endLine (some 7)) := by rfl
  have exact := nodes_read_exactly.1 "Poll"
  exact ⟨(exact.refuses castEvent _).mp refused, (exact.locates castEvent _ refused 7).mp rfl,
    exact.reads castEvent castEventOfTwo alike_castEvent⟩

end ContractTables
