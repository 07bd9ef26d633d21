import ContractTables.FileTree

/-!
The places of a directory tree. Entries stand by ascending name, so a name on the way
leads to one entry only, a walk comes by the files whose names on the way are all kept and
by nothing else, and it comes by them in the order of these names.
-/
namespace ContractTables

namespace FileTree

def IsName (name : String) : Prop :=
  name ≠ "" ∧ '/' ∉ name.toList ∧ Char.ofNat 0 ∉ name.toList

instance (name : String) : Decidable (IsName name) := inferInstanceAs (Decidable (_ ∧ _ ∧ _))

inductive WellFormed : FileTree → Prop where
  | file (content : ByteArray) : WellFormed (.file content)
  | dir {entries : List (String × FileTree)} (ascending : Ascending entries)
      (names : ∀ entry ∈ entries, IsName entry.1)
      (below : ∀ entry ∈ entries, WellFormed entry.2) : WellFormed (.dir entries)

variable {keepDir keepFile : String → Bool} {entries : List (String × FileTree)}

theorem WellFormed.ascending (wellFormed : (FileTree.dir entries).WellFormed) :
    Ascending entries := by
  cases wellFormed with
  | dir ascending _ _ => exact ascending

theorem WellFormed.entry (wellFormed : (FileTree.dir entries).WellFormed) {name : String}
    {tree : FileTree} (member : (name, tree) ∈ entries) : IsName name ∧ tree.WellFormed := by
  cases wellFormed with
  | dir _ names below => exact ⟨names _ member, below _ member⟩

theorem at?_file (content : ByteArray) (place : List String) (found : FileTree) :
    (file content).at? place = some found ↔ place = [] ∧ file content = found := by
  cases place <;> simp [at?, entry?]

theorem at?_dir_cons (ascending : Ascending entries) (name : String) (place : List String)
    (found : FileTree) :
    (dir entries).at? (name :: place) = some found ↔
      ∃ tree, (name, tree) ∈ entries ∧ tree.at? place = some found := by
  simp only [at?, entry?, Option.bind_eq_some_iff, ascending.lookup_eq_some_iff]

theorem WellFormed.isName {tree found : FileTree} {place : List String}
    (wellFormed : tree.WellFormed) (there : tree.at? place = some found) :
    ∀ name ∈ place, IsName name := by
  induction place generalizing tree with
  | nil => simp
  | cons name place ih =>
      cases tree with
      | file content => exact absurd ((at?_file ..).mp there).1 (List.cons_ne_nil _ _)
      | dir entries =>
          obtain ⟨tree, member, below⟩ := (at?_dir_cons wellFormed.ascending ..).mp there
          obtain ⟨isName, inner⟩ := wellFormed.entry member
          exact List.forall_mem_cons.mpr ⟨isName, ih inner below⟩

theorem wellFormed_empty : (dir []).WellFormed := .dir List.Pairwise.nil (by simp) (by simp)

theorem WellFormed.insertEntry {name : String} {tree : FileTree}
    (wellFormed : (FileTree.dir entries).WellFormed) (isName : IsName name)
    (inner : tree.WellFormed) : (FileTree.dir (insertEntry name tree entries)).WellFormed := by
  refine .dir (ascending_insertEntry wellFormed.ascending) ?_ ?_
  · intro entry member
    rcases mem_insertEntry member with rfl | old
    · exact isName
    · exact (wellFormed.entry old).1
  · intro entry member
    rcases mem_insertEntry member with rfl | old
    · exact inner
    · exact (wellFormed.entry old).2

theorem WellFormed.put {tree new : FileTree} (wellFormed : tree.WellFormed) (place : List String)
    (areNames : ∀ name ∈ place, IsName name) (newWellFormed : new.WellFormed) :
    (tree.put place new).WellFormed := by
  induction place generalizing tree with
  | nil => exact newWellFormed
  | cons name place ih =>
      obtain ⟨isName, areNames⟩ := List.forall_mem_cons.mp areNames
      cases tree with
      | file content => exact wellFormed_empty.insertEntry isName (ih wellFormed_empty areNames)
      | dir entries =>
          apply wellFormed.insertEntry isName
          apply ih _ areNames
          cases held : entries.lookup name with
          | none => exact wellFormed_empty
          | some tree =>
              exact (wellFormed.entry ((wellFormed.ascending.lookup_eq_some_iff ..).mp held)).2

/-! The files that a walk comes by. -/

def selectEntry (keepDir keepFile : String → Bool) : String × FileTree → List (List String)
  | (name, file _) => if keepFile name then [[name]] else []
  | (name, dir inner) =>
      if keepDir name then (selectEntries keepDir keepFile inner).map (name :: ·) else []

theorem selectEntries_eq_flatMap :
    selectEntries keepDir keepFile entries = entries.flatMap (selectEntry keepDir keepFile) := by
  induction entries with
  | nil => rw [selectEntries, List.flatMap_nil]
  | cons first rest ih =>
      obtain ⟨name, content | inner⟩ := first
      · rw [selectEntries, ih, List.flatMap_cons, selectEntry]
      · rw [selectEntries, ih, List.flatMap_cons, selectEntry]

theorem exists_cons_of_mem_selectEntry {entry : String × FileTree} {place : List String}
    (member : place ∈ selectEntry keepDir keepFile entry) :
    ∃ below, place = entry.1 :: below := by
  obtain ⟨name, content | inner⟩ := entry
  · simp only [selectEntry, List.mem_ite_nil_right, List.mem_singleton] at member
    exact ⟨[], member.2⟩
  · simp only [selectEntry, List.mem_ite_nil_right, List.mem_map] at member
    obtain ⟨_, below, _, same⟩ := member
    exact ⟨below, same.symm⟩

theorem nil_notMem_selectEntries : [] ∉ selectEntries keepDir keepFile entries := by
  rw [selectEntries_eq_flatMap, List.mem_flatMap]
  rintro ⟨entry, _, brought⟩
  obtain ⟨below, same⟩ := exists_cons_of_mem_selectEntry brought
  exact List.cons_ne_nil _ _ same.symm

/-- The first step of a walk takes a file of the directory or enters a directory of it. -/
theorem cons_mem_selectEntries (name : String) (place : List String) :
    name :: place ∈ selectEntries keepDir keepFile entries ↔
      ∃ tree, (name, tree) ∈ entries ∧
        match tree with
        | file _ => keepFile name ∧ place = []
        | dir inner => keepDir name ∧ place ∈ selectEntries keepDir keepFile inner := by
  rw [selectEntries_eq_flatMap, List.mem_flatMap]
  constructor
  · rintro ⟨⟨key, tree⟩, member, brought⟩
    -- Whatever an entry brings begins with its name.
    obtain ⟨below, same⟩ := exists_cons_of_mem_selectEntry brought
    obtain ⟨rfl, rfl⟩ := List.cons.inj same
    cases tree with
    | file content => exact ⟨_, member, by simpa [selectEntry] using brought⟩
    | dir inner => exact ⟨_, member, by simpa [selectEntry] using brought⟩
  · rintro ⟨content | inner, member, taken⟩
    · exact ⟨_, member, by simpa [selectEntry] using taken⟩
    · exact ⟨_, member, by simpa [selectEntry] using taken⟩

/-- A walk comes by a file exactly if the names of all directories on the way and its own
name are kept. -/
theorem mem_selectEntries (wellFormed : (dir entries).WellFormed) (dirs : List String)
    (name : String) :
    dirs ++ [name] ∈ selectEntries keepDir keepFile entries ↔
      (∀ directory ∈ dirs, keepDir directory) ∧ keepFile name ∧
        ∃ content, (dir entries).at? (dirs ++ [name]) = some (file content) := by
  induction dirs generalizing entries with
  | nil =>
      simp only [List.nil_append, cons_mem_selectEntries, at?_dir_cons wellFormed.ascending]
      constructor
      · rintro ⟨content | inner, member, taken⟩
        · exact ⟨by simp, taken.1, content, _, member, rfl⟩
        · exact absurd taken.2 nil_notMem_selectEntries
      · rintro ⟨_, taken, content, tree, member, same⟩
        obtain rfl : tree = file content := Option.some.inj same
        exact ⟨_, member, taken, trivial⟩
  | cons first dirs ih =>
      have inside {inner} (member : (first, dir inner) ∈ entries) := ih (wellFormed.entry member).2
      simp only [List.cons_append, cons_mem_selectEntries, at?_dir_cons wellFormed.ascending,
        List.forall_mem_cons]
      constructor
      · rintro ⟨content | inner, member, kept, below⟩
        · exact absurd below (by simp)
        · obtain ⟨others, taken, content, there⟩ := (inside member).mp below
          exact ⟨⟨kept, others⟩, taken, content, _, member, there⟩
      · rintro ⟨⟨kept, others⟩, taken, content, other | inner, member, there⟩
        · exact absurd ((at?_file ..).mp there).1 (by simp)
        · exact ⟨_, member, kept, (inside member).mpr ⟨others, taken, content, there⟩⟩

theorem exists_file_of_mem_selectEntries (wellFormed : (dir entries).WellFormed)
    {place : List String} (member : place ∈ selectEntries keepDir keepFile entries) :
    ∃ content, (dir entries).at? place = some (file content) := by
  rcases List.eq_nil_or_concat place with rfl | ⟨dirs, name, rfl⟩
  · exact absurd member nil_notMem_selectEntries
  · rw [List.concat_eq_append] at member ⊢
    exact ((mem_selectEntries wellFormed dirs name).mp member).2.2

/-- A directory's content comes at the place of its name among the siblings, so the order of
the places is that of the names on the way, not that of the paths as texts. -/
theorem WellFormed.pairwise_select {tree : FileTree} (wellFormed : tree.WellFormed) :
    (tree.select keepDir keepFile).Pairwise (· < ·) := by
  induction wellFormed with
  | file content => rw [select]; exact List.Pairwise.nil
  | dir ascending names below ih =>
      rw [select, selectEntries_eq_flatMap, List.pairwise_flatMap]
      -- Two places of one entry differ below its name; of two entries the names decide.
      refine ⟨?_, ascending.imp ?_⟩
      · rintro ⟨name, content | inner⟩ member
        · simp only [selectEntry]
          split
          · exact List.pairwise_singleton _ _
          · exact List.Pairwise.nil
        · have inside := ih _ member
          simp only [select] at inside
          simp only [selectEntry]
          split
          · refine List.pairwise_map.mpr (inside.imp fun less => ?_)
            exact List.cons_lt_cons_iff.mpr (.inr ⟨rfl, less⟩)
          · exact List.Pairwise.nil
      · intro first second less earlier fromFirst later fromSecond
        obtain ⟨_, rfl⟩ := exists_cons_of_mem_selectEntry fromFirst
        obtain ⟨_, rfl⟩ := exists_cons_of_mem_selectEntry fromSecond
        exact List.cons_lt_cons_iff.mpr (.inl less)

theorem WellFormed.pairwise_selectEntries (wellFormed : (FileTree.dir entries).WellFormed) :
    (selectEntries keepDir keepFile entries).Pairwise (· < ·) := by
  have sorted : ((FileTree.dir entries).select keepDir keepFile).Pairwise (· < ·) :=
    wellFormed.pairwise_select
  rwa [select] at sorted

/-! The directories that a walk enters. -/

theorem nil_notMem_entered : [] ∉ entered keepDir entries := by
  induction entries with
  | nil => simp [entered]
  | cons first rest ih =>
      obtain ⟨name, content | inner⟩ := first
      · simp [entered, ih]
      · simp [entered, ih]

theorem cons_mem_entered (name : String) (place : List String) :
    name :: place ∈ entered keepDir entries ↔
      keepDir name ∧ ∃ inner, (name, dir inner) ∈ entries ∧
        (place = [] ∨ place ∈ entered keepDir inner) := by
  induction entries with
  | nil => simp [entered]
  | cons first rest ih =>
      obtain ⟨key, content | inner⟩ := first
      · simp [entered, ih]
      · simp only [entered, List.mem_append, ih]
        grind

/-- A walk enters exactly the directories whose names on the way are all kept. -/
theorem mem_entered (wellFormed : (dir entries).WellFormed) (place : List String) :
    place ∈ entered keepDir entries ↔
      place ≠ [] ∧ (∀ directory ∈ place, keepDir directory) ∧
        ∃ inner, (dir entries).at? place = some (dir inner) := by
  induction place generalizing entries with
  | nil => simp [nil_notMem_entered]
  | cons name place ih =>
      have inside {inner} (member : (name, dir inner) ∈ entries) := ih (wellFormed.entry member).2
      simp only [cons_mem_entered, at?_dir_cons wellFormed.ascending, List.forall_mem_cons]
      constructor
      · rintro ⟨kept, inner, member, rfl | below⟩
        · exact ⟨by simp, ⟨kept, by simp⟩, inner, _, member, rfl⟩
        · obtain ⟨_, others, last, there⟩ := (inside member).mp below
          exact ⟨by simp, ⟨kept, others⟩, last, _, member, there⟩
      · rintro ⟨_, ⟨kept, others⟩, last, content | inner, member, there⟩
        · exact absurd ((at?_file ..).mp there).2 (by simp)
        · refine ⟨kept, inner, member, ?_⟩
          by_cases none : place = []
          · exact .inl none
          · exact .inr ((inside member).mpr ⟨none, others, last, there⟩)

end FileTree
end ContractTables
