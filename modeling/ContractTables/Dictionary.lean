/-!
Dictionaries from texts to values, listed by ascending key. The order is that of code
points and part of the type, so two dictionaries with the same entries are equal and
are written alike.
-/
namespace ContractTables

/-- Puts an entry in its place in an ascending list; an entry of the same key gives way. -/
def insertEntry {α : Type} (key : String) (value : α) : List (String × α) → List (String × α)
  | [] => [(key, value)]
  | (k, v) :: rest =>
      if key < k then (key, value) :: (k, v) :: rest
      else if key = k then (key, value) :: rest
      else (k, v) :: insertEntry key value rest

def Ascending {α : Type} (entries : List (String × α)) : Prop :=
  entries.Pairwise (·.1 < ·.1)

instance {α : Type} (entries : List (String × α)) : Decidable (Ascending entries) :=
  inferInstanceAs (Decidable (entries.Pairwise _))

variable {α : Type}

theorem mem_insertEntry {key : String} {value : α} {entries : List (String × α)}
    {entry : String × α} (member : entry ∈ insertEntry key value entries) :
    entry = (key, value) ∨ entry ∈ entries := by
  induction entries with
  | nil => simpa [insertEntry] using member
  | cons first rest ih =>
      simp only [insertEntry] at member
      split at member
      · simpa using member
      · split at member
        · rcases List.mem_cons.mp member with same | old
          · exact .inl same
          · exact .inr (List.mem_cons_of_mem _ old)
        · rcases List.mem_cons.mp member with same | old
          · exact .inr (same ▸ List.mem_cons_self)
          · exact (ih old).imp_right (List.mem_cons_of_mem _)

theorem ascending_insertEntry {key : String} {value : α} {entries : List (String × α)}
    (ascending : Ascending entries) : Ascending (insertEntry key value entries) := by
  induction entries with
  | nil => exact List.pairwise_singleton _ _
  | cons first rest ih =>
      obtain ⟨above, tail⟩ := List.pairwise_cons.mp ascending
      simp only [insertEntry]
      split
      · next less =>
          refine List.pairwise_cons.mpr ⟨fun entry member => ?_, ascending⟩
          rcases List.mem_cons.mp member with same | old
          · exact same ▸ less
          · exact String.lt_trans less (above entry old)
      · next notLess =>
          split
          · next same => exact List.pairwise_cons.mpr ⟨same ▸ above, tail⟩
          · next different =>
              refine List.pairwise_cons.mpr ⟨fun entry member => ?_, ih tail⟩
              rcases mem_insertEntry member with same | old
              · subst same
                exact (Std.le_iff_lt_or_eq.mp (String.not_lt.mp notLess)).resolve_right
                  (different ∘ Eq.symm)
              · exact above entry old

theorem lookup_insertEntry_self (key : String) (value : α) (entries : List (String × α)) :
    (insertEntry key value entries).lookup key = some value := by
  induction entries with
  | nil => simp [insertEntry]
  | cons first rest ih =>
      obtain ⟨k, v⟩ := first
      simp only [insertEntry]
      split
      · simp
      · split
        · simp
        · next different => simpa [List.lookup_cons, beq_eq_false_iff_ne.mpr different] using ih

theorem lookup_insertEntry_of_ne {key other : String} (different : other ≠ key) (value : α)
    (entries : List (String × α)) :
    (insertEntry key value entries).lookup other = entries.lookup other := by
  have passed := beq_eq_false_iff_ne.mpr different
  induction entries with
  | nil => simp [insertEntry, List.lookup_cons, passed]
  | cons first rest ih =>
      obtain ⟨k, v⟩ := first
      simp only [insertEntry]
      split
      · simp [List.lookup_cons, passed]
      · split
        · next same => subst same; simp [List.lookup_cons, passed]
        · simp only [List.lookup_cons, ih]

theorem lookup_filter_key (keep : String → Bool) (entries : List (String × α)) (key : String) :
    (entries.filter fun entry => keep entry.1).lookup key =
      if keep key then entries.lookup key else none := by
  induction entries with
  | nil => simp
  | cons first rest ih =>
      obtain ⟨k, v⟩ := first
      by_cases same : key = k
      · subst same
        cases kept : keep key <;> simp [kept, ih]
      · have passed := beq_eq_false_iff_ne.mpr same
        cases kept : keep k <;> simp [kept, ih, List.lookup_cons, passed]

theorem Ascending.lookup_eq_some_iff {entries : List (String × α)}
    (ascending : Ascending entries) (name : String) (value : α) :
    entries.lookup name = some value ↔ (name, value) ∈ entries := by
  induction entries with
  | nil => simp
  | cons first rest ih =>
      obtain ⟨key, held⟩ := first
      obtain ⟨above, tail⟩ := List.pairwise_cons.mp ascending
      by_cases same : name = key
      · subst same
        have only : (name, value) ∉ rest := fun later => String.lt_irrefl name (above _ later)
        simp [only, eq_comm]
      · simp [List.lookup_cons, beq_eq_false_iff_ne.mpr same, ih tail, same]

structure Dictionary (α : Type) where
  entries : List (String × α) := []
  ascending : Ascending entries := by exact List.Pairwise.nil
  deriving DecidableEq

namespace Dictionary

def empty : Dictionary α := {}

def find? (d : Dictionary α) (key : String) : Option α := d.entries.lookup key

def insert (d : Dictionary α) (key : String) (value : α) : Dictionary α :=
  ⟨insertEntry key value d.entries, ascending_insertEntry d.ascending⟩

def eraseAll (d : Dictionary α) (keys : List String) : Dictionary α :=
  ⟨d.entries.filter fun entry => !keys.contains entry.1, d.ascending.filter _⟩

def ofList (entries : List (String × α)) : Dictionary α :=
  entries.foldl (fun d entry => d.insert entry.1 entry.2) empty

@[simp] theorem find?_insert_self (d : Dictionary α) (key : String) (value : α) :
    (d.insert key value).find? key = some value :=
  lookup_insertEntry_self key value d.entries

theorem find?_insert_of_ne (d : Dictionary α) {key other : String} (different : other ≠ key)
    (value : α) : (d.insert key value).find? other = d.find? other :=
  lookup_insertEntry_of_ne different value d.entries

theorem find?_eraseAll (d : Dictionary α) (keys : List String) (key : String) :
    (d.eraseAll keys).find? key = if keys.contains key then none else d.find? key := by
  have kept := lookup_filter_key (!keys.contains ·) d.entries key
  refine kept.trans ?_
  cases keys.contains key <;> rfl

/-- The keys of a dictionary are those under which something is found. -/
theorem mem_keys_iff (d : Dictionary α) (key : String) :
    key ∈ d.entries.map Prod.fst ↔ d.find? key ≠ none := by
  rw [Option.ne_none_iff_exists']
  constructor
  · intro member
    obtain ⟨⟨_, value⟩, entry, rfl⟩ := List.mem_map.mp member
    exact ⟨value, (d.ascending.lookup_eq_some_iff _ value).mpr entry⟩
  · rintro ⟨value, found⟩
    have entry := (d.ascending.lookup_eq_some_iff key value).mp found
    exact List.mem_map.mpr ⟨(key, value), entry, rfl⟩

end Dictionary
end ContractTables
