import ContractTables.Proofs.Comment.Passes
import ContractTables.Proofs.Item.Visits

/-!
Documents without what is skipped. Pruning takes out of a document the contracts that are
ignored or rejected, the entries that are rejected and the declarations that are rejected,
each from the array in which it stands, and leaves all else. What is taken out leaves no
trace but its diagnostic: the pruned document has the same rows, with nothing ignored and
nothing to report.
-/
namespace ContractTables

namespace Json

/-- Replaces or removes the objects in an array; other items and other values stay. -/
def sift (f : Node → Option Node) : Json → Json
  | array items => array (items.filterMap fun item => if item.isObject then f item else some item)
  | other => other

def KeepsObjects (f : Node → Option Node) : Prop :=
  ∀ node kept, f node = some kept → kept.isObject = node.isObject

theorem filter_sifted {f : Node → Option Node} (keeps : KeepsObjects f) (items : List Json) :
    (items.filterMap fun item => if item.isObject then f item else some item).filter isObject =
      (items.filter isObject).filterMap f := by
  induction items with
  | nil => rfl
  | cons item rest ih =>
      by_cases object : item.isObject
      · cases kept : f item with
        | none => simp [object, kept, ih]
        | some other =>
            have still : other.isObject := (keeps item other kept).trans object
            simp [object, kept, still, ih]
      · simp [object, ih]

end Json

open Json

theorem Node.children_sift {f : Node → Option Node} (keeps : KeepsObjects f) (node : Node)
    (key : String) : (node.mapMember key (sift f)).children key =
      (node.children key).filterMap f := by
  rw [children, children, field?, field?, member?_mapMember_self]
  cases node.member? key with
  | none => rfl
  | some value =>
      cases value with
      | array items => exact filter_sifted keeps items
      | null | bool _ | int _ | float _ | string _ | object _ => rfl

namespace Document

def keptDeclaration (owner : Definition) (node : Node) : Option Node :=
  match Declaration.ofNode node owner with
  | .ok _ => some node
  | .error _ => none

def pruneDeclared (owner : Definition) (node : Node) : Node :=
  match owner.kind with
  | .struct => node.mapMember "members" (sift (keptDeclaration owner))
  | .function | .event | .modifier =>
      node.mapMember "parameters" fun list =>
        if list.isObject then Node.mapMember "parameters" (sift (keptDeclaration owner)) list
        else sift (keptDeclaration owner) list
  | .contract | .enum => node

def pruneMember (contract : Definition) (node : Node) : Option Node :=
  if node.tag? = some "StateVariableDeclaration" then
    some (node.mapMember "variables" (sift (keptDeclaration contract)))
  else match Definition.ofNode node contract.name with
    | .ok found => some (pruneDeclared found node)
    | .error _ => none

/-- A child of a document, if it is kept: a contract that is neither ignored nor rejected, or
no contract at all. -/
def pruneChild (ignored : List String) (node : Node) : Option Node :=
  if node.tag? ≠ some DefinitionKind.contract.tag then some node
  else match node.name? with
    | none => none
    | some name =>
        if ignored.contains name then none
        else match Definition.ofNode node name with
          | .ok found => some (node.mapMember "subNodes" (sift (pruneMember found)))
          | .error _ => none

def prune (ignored : List String) (root : Node) : Node :=
  root.mapMember "children" (sift (pruneChild ignored))

end Document

open Item Document

namespace Item

def rows (items : List Item) : List Item := items.filter fun item => item.fault?.isNone

@[simp] theorem rows_cons_definition (found : Definition) (items : List Item) :
    rows (definition found :: items) = definition found :: rows items := rfl

@[simp] theorem rows_fault (found : Fault) : rows [fault found] = [] := rfl

theorem filterMap_rows {α : Type} {f : Item → Option α} (silent : ∀ found, f (fault found) = none)
    (items : List Item) : (rows items).filterMap f = items.filterMap f := by
  induction items with
  | nil => rfl
  | cons item rest ih =>
      cases item with
      | definition found | declaration found =>
          rw [List.filterMap_cons, ← ih]
          rfl
      | fault found => rw [List.filterMap_cons_none (silent found), ← ih]; rfl

/-- If nodes are pruned one by one, so are their items. -/
theorem flatMap_pruned {prune : Node → Option Node} {before after : Node → List Item}
    (step : ∀ node, ((prune node).map after).getD [] = rows (before node))
    (nodes : List Node) :
    (nodes.filterMap prune).flatMap after = rows (nodes.flatMap before) := by
  induction nodes with
  | nil => rfl
  | cons node rest ih =>
      have here := step node
      rw [List.flatMap_cons, rows, List.filter_append]
      cases kept : prune node with
      | none =>
          have nothing : rows (before node) = [] := by simpa [kept] using here.symm
          rw [List.filterMap_cons_none kept, ih, ← rows, ← rows, nothing]
          rfl
      | some other =>
          have same : after other = rows (before node) := by simpa [kept] using here
          rw [List.filterMap_cons_some kept, List.flatMap_cons, ih, same]
          rfl

theorem map_pruned (owner : Definition) (nodes : List Node) :
    (nodes.filterMap (keptDeclaration owner)).map (ofDeclaration owner) =
      rows (nodes.map (ofDeclaration owner)) := by
  rw [List.map_eq_flatMap, List.map_eq_flatMap]
  apply flatMap_pruned
  intro node
  rw [ofDeclaration, keptDeclaration]
  cases accepted : Declaration.ofNode node owner with
  | ok found => simp [ofDeclaration, accepted, rows, fault?]
  | error found => rfl

end Item

namespace Document

theorem keepsObjects_keptDeclaration (owner : Definition) :
    KeepsObjects (keptDeclaration owner) := by
  intro node kept same
  rw [keptDeclaration] at same
  split at same
  · cases same
    rfl
  · cases same

theorem declared_pruneDeclared (owner : Definition) (node : Node) :
    declared (pruneDeclared owner node) owner.kind =
      (declared node owner.kind).filterMap (keptDeclaration owner) := by
  have keeps := keepsObjects_keptDeclaration owner
  rw [pruneDeclared]
  cases owner.kind with
  | contract | enum => rfl
  | struct => exact Node.children_sift keeps node "members"
  | function | event | modifier =>
      simp only [declared, Node.child?, Node.children, Node.field?, Node.member?_mapMember_self]
      cases node.member? "parameters" with
      | none => rfl
      | some value =>
          cases value with
          | object members => exact Node.children_sift keeps (.object members) "parameters"
          | array items => exact filter_sifted keeps items
          | null | bool _ | int _ | float _ | string _ => rfl

theorem ofNode_mapMember {node : Node} {key : String} (unread : key ∉ Definition.keys)
    (other : key ≠ "members") (f : Json → Json) (contract : String) :
    Definition.ofNode (node.mapMember key f) contract = Definition.ofNode node contract :=
  Definition.ofNode_congr (Node.agree_mapMember unread f node)
    (fun _ => Node.member?_mapMember_of_ne other.symm f node) contract

theorem tag?_mapMember {key : String} (unread : key ∉ Definition.keys) (f : Json → Json)
    (node : Node) : (node.mapMember key f).tag? = node.tag? := by
  apply Node.tag?_congr
  intro other member
  exact Node.agree_mapMember unread f node other (List.mem_append_left _ member)

/-- A definition is not read from the list that it declares. -/
theorem ofNode_pruneDeclared {node : Node} {contract : String} {found : Definition}
    (accepted : Definition.ofNode node contract = .ok found) :
    Definition.ofNode (pruneDeclared found node) contract = .ok found := by
  rw [← accepted, pruneDeclared]
  cases kind : found.kind with
  | contract | enum => rfl
  | function | event | modifier => exact ofNode_mapMember (by decide) (by decide) _ contract
  | struct =>
      have agree := Node.agree_mapMember (by decide : "members" ∉ Definition.keys)
        (sift (keptDeclaration found)) node
      refine Definition.ofNode_congr agree (fun enumeration => ?_) contract
      rw [Definition.tag_of_ofNode accepted, kind] at enumeration
      cases enumeration

theorem tag?_pruneDeclared (owner : Definition) (node : Node) :
    (pruneDeclared owner node).tag? = node.tag? := by
  rw [pruneDeclared]
  cases owner.kind with
  | contract | enum => rfl
  | struct | function | event | modifier => exact tag?_mapMember (by decide) _ node

theorem ofMember_pruned (contract : Definition) (node : Node) :
    ((pruneMember contract node).map (ofMember contract)).getD [] =
      rows (ofMember contract node) := by
  rw [pruneMember]
  by_cases stored : node.tag? = some "StateVariableDeclaration"
  · have still : (node.mapMember "variables" (sift (keptDeclaration contract))).tag? =
        some "StateVariableDeclaration" := (tag?_mapMember (by decide) _ node).trans stored
    rw [if_pos stored, Option.map_some, Option.getD_some, ofMember, if_pos still,
      Node.children_sift (keepsObjects_keptDeclaration contract), map_pruned, ofMember,
      if_pos stored]
  · rw [if_neg stored]
    cases accepted : Definition.ofNode node contract.name with
    | error fault => simp [ofMember, stored, accepted]
    | ok found =>
        have still : (pruneDeclared found node).tag? ≠ some "StateVariableDeclaration" := by
          rw [tag?_pruneDeclared]
          exact stored
        simp only [Option.map_some, Option.getD_some, ofMember, if_neg stored, if_neg still,
          accepted, ofNode_pruneDeclared accepted, declared_pruneDeclared, map_pruned,
          rows_cons_definition]

theorem keepsObjects_pruneMember (contract : Definition) :
    KeepsObjects (pruneMember contract) := by
  intro node kept same
  rw [pruneMember] at same
  split at same
  · cases same
    exact Node.isObject_mapMember _ _ node
  · split at same
    · next found _ =>
        cases same
        rw [pruneDeclared]
        cases found.kind with
        | contract | enum => rfl
        | struct | function | event | modifier => exact Node.isObject_mapMember _ _ node
    · cases same

def ofChild (ignored : List String) (node : Node) : List Item :=
  if node.tag? = some DefinitionKind.contract.tag then ofContract ignored node else []

/-- An accepted contract has its pruned body, and nothing is ignored any more. -/
theorem ofChild_mapMember {node : Node} {name : String} {found : Definition}
    (tagged : node.tag? = some DefinitionKind.contract.tag) (named : node.name? = some name)
    (accepted : Definition.ofNode node name = .ok found) :
    ofChild [] (node.mapMember "subNodes" (sift (pruneMember found))) =
      definition found :: rows ((node.children "subNodes").flatMap (ofMember found)) := by
  have stillTagged : (node.mapMember "subNodes" (sift (pruneMember found))).tag? =
      some DefinitionKind.contract.tag := (tag?_mapMember (by decide) _ node).trans tagged
  have stillNamed : (node.mapMember "subNodes" (sift (pruneMember found))).name? = some name :=
    (Node.text?_congr (Node.field?_congr
      (Node.member?_mapMember_of_ne (by decide) _ node))).trans named
  have stillAccepted : Definition.ofNode
      (node.mapMember "subNodes" (sift (pruneMember found))) name = .ok found :=
    (ofNode_mapMember (by decide) (by decide) _ name).trans accepted
  rw [ofChild, if_pos stillTagged, ofContract, stillNamed]
  simp only [List.contains_nil, Bool.false_eq_true, ↓reduceIte, stillAccepted,
    Node.children_sift (keepsObjects_pruneMember found),
    flatMap_pruned (ofMember_pruned found)]

theorem ofChild_pruned (ignored : List String) (node : Node) :
    ((pruneChild ignored node).map (ofChild [])).getD [] = rows (ofChild ignored node) := by
  rw [pruneChild]
  by_cases tagged : node.tag? = some DefinitionKind.contract.tag
  · rw [if_neg (not_not_intro tagged), ofChild, if_pos tagged, ofContract]
    cases named : node.name? with
    | none => rfl
    | some name =>
        by_cases passed : ignored.contains name
        · simp only [if_pos passed]
          rfl
        · simp only [if_neg passed]
          cases accepted : Definition.ofNode node name with
          | error fault => rfl
          | ok found =>
              exact ofChild_mapMember tagged named accepted
  · rw [if_pos tagged, Option.map_some, Option.getD_some, ofChild, if_neg tagged, ofChild,
      if_neg tagged]
    rfl

theorem keepsObjects_pruneChild (ignored : List String) : KeepsObjects (pruneChild ignored) := by
  intro node kept same
  rw [pruneChild] at same
  split at same
  · cases same
    rfl
  · split at same
    · cases same
    · split at same
      · cases same
      · split at same
        · cases same
          exact Node.isObject_mapMember _ _ node
        · cases same

/-- The items of the pruned document are those of the document that leave a row. -/
theorem contracts_prune (ignored : List String) (root : Node) :
    (contracts (prune ignored root)).flatMap (ofContract []) =
      rows ((contracts root).flatMap (ofContract ignored)) := by
  rw [flatMap_contracts, flatMap_contracts, prune,
    Node.children_sift (keepsObjects_pruneChild ignored)]
  exact flatMap_pruned (ofChild_pruned ignored) (root.children "children")

theorem ofDocument_prune (ignored : List String) (root : Node) :
    ofDocument (prune ignored root) [] = (ofDocument root ignored).map rows := by
  have object : (prune ignored root).isObject = root.isObject := Node.isObject_mapMember _ _ root
  have listed : (prune ignored root).member? "children" =
      (root.member? "children").map (sift (pruneChild ignored)) :=
    Node.member?_mapMember_self _ _ root
  rw [ofDocument, ofDocument, object, contracts_prune, Node.field?, Node.field?, listed]
  split
  · rfl
  · cases root.member? "children" with
    | none => rfl
    | some value => cases value <;> rfl

end Document

namespace Tables

def withoutDiagnostics (tables : Tables) : Tables := { tables with diagnostics := [] }

theorem ofItems_rows (items : List Item) :
    ofItems (rows items) = (ofItems items).withoutDiagnostics := by
  have definitions := filterMap_rows (f := definition?) (fun _ => rfl) items
  have declarations := filterMap_rows (f := declaration?) (fun _ => rfl) items
  have faults : (rows items).filterMap fault? = [] := by
    rw [rows, List.filterMap_filter, List.filterMap_eq_nil_iff]
    intro item _
    cases item <;> rfl
  rw [ofItems, definitions, declarations, faults]
  rfl

theorem extract_prune (ignored : List String) (root : Node) :
    extract (prune ignored root) [] = (extract root ignored).map withoutDiagnostics := by
  rw [extract, extract, ofDocument_prune]
  cases ofDocument root ignored with
  | error fault => rfl
  | ok items => exact congrArg Except.ok (ofItems_rows items)

theorem finish_withoutDiagnostics (lines : List Text.Line) (taxonomy : Taxonomy)
    (tables : Tables) : finish lines taxonomy tables.withoutDiagnostics =
      (finish lines taxonomy tables).withoutDiagnostics := rfl

/-- A document that was pruned of all that is skipped or ignored is parsed into the same
rows, with their comments and codes, and leaves no diagnostic. -/
theorem parse_prune (settings : Settings) (root : Node) (lines : List Text.Line) :
    parse { settings with ignoredContracts := [] } (prune settings.ignoredContracts root) lines =
      (parse settings root lines).map fun tables => { tables with diagnostics := [] } := by
  have finished : ∀ settings root, parse settings root lines =
      (extract root settings.ignoredContracts).map (finish lines settings.taxonomy) :=
    fun _ _ => rfl
  rw [finished, finished, extract_prune]
  cases extract root settings.ignoredContracts with
  | error fault => rfl
  | ok tables => exact congrArg Except.ok (finish_withoutDiagnostics lines settings.taxonomy tables)

example :
    prune ["SafeMath"]
        (Document.ofContracts
          [Document.contract "SafeMath" 1 2 [], .object [("type", .string "PragmaDirective")],
            Document.contract "Vault" 3 9
              [.object [("type", .string "UsingForDeclaration")],
                .object [("type", .string "StateVariableDeclaration"),
                  ("variables", .array [Document.word "total" 5, .object []])],
                Document.function "pay" 7 ["value", "note"]]]) =
      Document.ofContracts
        [.object [("type", .string "PragmaDirective")],
          Document.contract "Vault" 3 9
            [.object [("type", .string "StateVariableDeclaration"),
                ("variables", .array [Document.word "total" 5])],
              Document.function "pay" 7 ["value", "note"]]] := rfl

end Tables
end ContractTables
