import ContractTables.Dictionary
import ContractTables.Json.Basic

/-!
Values with the members of every object by ascending key, which is how values are read. An
object holds under each key what it held before; of several members with one key the last
one counts.
-/
namespace ContractTables

theorem insertEntry_of_above {α : Type} {key : String} (value : α) {entries : List (String × α)}
    (above : ∀ entry ∈ entries, entry.1 < key) :
    insertEntry key value entries = entries ++ [(key, value)] := by
  induction entries with
  | nil => rfl
  | cons first rest ih =>
      obtain ⟨less, above⟩ := List.forall_mem_cons.mp above
      have different : key ≠ first.1 := fun same => String.lt_irrefl key (same ▸ less)
      rw [insertEntry, if_neg (String.lt_asymm less), if_neg different, ih above, List.cons_append]

namespace Json

mutual
def sorted : Json → Json
  | array items => array (sortedItems items)
  | object members => object (sortedMembers members [])
  | scalar => scalar

def sortedItems : List Json → List Json
  | [] => []
  | item :: rest => sorted item :: sortedItems rest

def sortedMembers : List (String × Json) → List (String × Json) → List (String × Json)
  | [], found => found
  | (key, value) :: rest, found => sortedMembers rest (insertEntry key (sorted value) found)
end

theorem sortedItems_eq_map (items : List Json) : sortedItems items = items.map sorted := by
  induction items with
  | nil => rfl
  | cons item rest ih => rw [sortedItems, ih, List.map_cons]

theorem lookup_sortedMembers (members found : List (String × Json)) (key : String) :
    (sortedMembers members found).lookup key =
      ((members.reverse.lookup key).map sorted).or (found.lookup key) := by
  induction members generalizing found with
  | nil => rfl
  | cons member rest ih =>
      obtain ⟨name, value⟩ := member
      rw [sortedMembers, ih, List.reverse_cons, List.lookup_append]
      by_cases same : key = name
      · subst same
        rw [lookup_insertEntry_self]
        cases rest.reverse.lookup key <;> simp
      · rw [lookup_insertEntry_of_ne same]
        cases rest.reverse.lookup key <;> simp [List.lookup_cons, beq_eq_false_iff_ne.mpr same]

theorem member?_sorted (members : List (String × Json)) (key : String) :
    (object members).sorted.member? key = (members.reverse.lookup key).map sorted := by
  rw [sorted, member?, lookup_sortedMembers]
  exact Option.or_none

/-- Members that stand by ascending key already, behind those that were found, stay in place. -/
theorem sortedMembers_of_ascending {members found : List (String × Json)}
    (ascending : Ascending members)
    (above : ∀ member ∈ members, ∀ entry ∈ found, entry.1 < member.1) :
    sortedMembers members found =
      found ++ members.map fun (key, value) => (key, sorted value) := by
  induction members generalizing found with
  | nil => exact (List.append_nil found).symm
  | cons member rest ih =>
      obtain ⟨least, tail⟩ := List.pairwise_cons.mp ascending
      obtain ⟨aboveFirst, aboveRest⟩ := List.forall_mem_cons.mp above
      rw [sortedMembers, insertEntry_of_above _ aboveFirst, ih tail, List.append_assoc]
      · rfl
      · intro later inRest entry inFound
        rcases List.mem_append.mp inFound with old | new
        · exact aboveRest later inRest entry old
        · cases List.mem_singleton.mp new
          exact least later inRest

end Json
end ContractTables
