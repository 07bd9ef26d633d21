import ContractTables.Proofs.Path
import ContractTables.Proofs.Path.Pieces

/-!
Where paths lead. The text of an entry leads one step further than the text of its
directory, so on a disk whose entries go by names of their own the path of a place below a
directory leads to this place.
-/
namespace ContractTables

open FileTree (IsName)

theorem FileTree.at?_append (tree : FileTree) (first second : List String) :
    tree.at? (first ++ second) = (tree.at? first).bind (at? second) := by
  induction first generalizing tree with
  | nil => rfl
  | cons name first ih =>
      simp only [List.cons_append, at?]
      cases tree.entry? name with
      | none => rfl
      | some inner => exact ih inner

/-- Trees in which no entry goes by a name that stands for a place already. -/
inductive FileTree.Undotted : FileTree → Prop where
  | file (content : ByteArray) : Undotted (.file content)
  | dir {entries : List (String × FileTree)}
      (names : ∀ entry ∈ entries, entry.1 ≠ "." ∧ entry.1 ≠ "..")
      (below : ∀ entry ∈ entries, Undotted entry.2) : Undotted (.dir entries)

theorem FileTree.WellFormed.of_at? {tree found : FileTree} {place : List String}
    (wellFormed : tree.WellFormed) (there : tree.at? place = some found) : found.WellFormed := by
  induction place generalizing tree with
  | nil => exact Option.some.inj there ▸ wellFormed
  | cons name place ih =>
      cases tree with
      | file content => exact absurd ((at?_file ..).mp there).1 (List.cons_ne_nil _ _)
      | dir entries =>
          obtain ⟨tree, member, below⟩ := (at?_dir_cons wellFormed.ascending ..).mp there
          exact ih (wellFormed.entry member).2 below

theorem FileTree.Undotted.of_at? {tree found : FileTree} {place : List String}
    (wellFormed : tree.WellFormed) (undotted : tree.Undotted)
    (there : tree.at? place = some found) :
    (∀ name ∈ place, name ≠ "." ∧ name ≠ "..") ∧ found.Undotted := by
  induction place generalizing tree with
  | nil => exact ⟨by simp, Option.some.inj there ▸ undotted⟩
  | cons name place ih =>
      cases undotted with
      | file content => exact absurd ((at?_file ..).mp there).1 (List.cons_ne_nil _ _)
      | dir names inner =>
          obtain ⟨tree, member, below⟩ := (at?_dir_cons wellFormed.ascending ..).mp there
          obtain ⟨others, last⟩ := ih (wellFormed.entry member).2 (inner _ member) below
          exact ⟨List.forall_mem_cons.mpr ⟨names _ member, others⟩, last⟩

structure Disk.Sound (disk : Disk) : Prop where
  wellFormed : disk.root.WellFormed
  undotted : disk.root.Undotted

theorem Disk.Sound.of_node? {disk : Disk} (sound : disk.Sound) {text : String} {tree : FileTree}
    (there : disk.node? text = some tree) : tree.WellFormed ∧ tree.Undotted := by
  obtain ⟨place, _, stands⟩ := Option.bind_eq_some_iff.mp there
  exact ⟨sound.wellFormed.of_at? stands, (sound.undotted.of_at? sound.wellFormed stands).2⟩

namespace Disk

variable (disk : Disk)

theorem place?_eq {text : String} (isPath : isPath text) :
    disk.place? text = (Path.parse text).pieces.foldlM disk.step? (disk.start (Path.parse text)) :=
  if_pos isPath

/-- Nothing is below a place that is no directory. -/
theorem at?_append_of_not_isDirAt {place : List String} (other : disk.isDirAt place = false)
    (name : String) (rest : List String) : disk.root.at? (place ++ name :: rest) = none := by
  rw [FileTree.at?_append]
  unfold isDirAt at other
  cases there : disk.root.at? place with
  | none => rfl
  | some tree =>
      cases tree with
      | file content => rfl
      | dir entries => simp [there, FileTree.isDir] at other

section Steps

variable {disk : Disk}

theorem isDirAt_iff {place : List String} :
    disk.isDirAt place ↔ ∃ entries, disk.root.at? place = some (.dir entries) := by
  unfold isDirAt
  cases disk.root.at? place with
  | none => simp
  | some tree => cases tree <;> simp [FileTree.isDir]

inductive Step (disk : Disk) : List String → String → List String → Prop where
  | idle {place : List String} {piece : String} (isDir : disk.isDirAt place)
      (idle : Path.isIdle piece) : Step disk place piece place
  | back {place : List String} (isDir : disk.isDirAt place) : Step disk place ".." place.dropLast
  | down {place : List String} {piece : String} {found : FileTree} (isDir : disk.isDirAt place)
      (names : ¬ Path.isIdle piece ∧ piece ≠ "..")
      (there : disk.root.at? (place ++ [piece]) = some found) :
      Step disk place piece (place ++ [piece])

theorem step?_eq_some_iff {place next : List String} {piece : String} :
    disk.step? place piece = some next ↔ disk.Step place piece next := by
  constructor
  · intro leads
    unfold step? at leads
    cases isDir : disk.isDirAt place with
    | false => simp [isDir] at leads
    | true =>
        simp only [isDir, Bool.not_true, Bool.false_eq_true, ↓reduceIte] at leads
        split at leads
        · next idle =>
            cases leads
            exact .idle isDir idle
        · next active =>
            split at leads
            · next back =>
                cases leads
                exact back ▸ .back isDir
            · next named =>
                obtain ⟨found, there, rfl⟩ := Option.map_eq_some_iff.mp leads
                exact .down isDir ⟨active, named⟩ there
  · intro step
    cases step with
    | idle isDir idle => simp [step?, isDir, idle]
    | back isDir => simp [step?, isDir, Path.isIdle]
    | down isDir names there => simp [step?, isDir, names, there]

/-- Nothing stands below what is no directory, so what is above a directory is one. -/
theorem isDirAt_of_append {place rest : List String} (isDir : disk.isDirAt (place ++ rest)) :
    disk.isDirAt place := by
  cases rest with
  | nil => rwa [List.append_nil] at isDir
  | cons name rest =>
      cases above : disk.isDirAt place with
      | true => rfl
      | false =>
          rw [isDirAt, disk.at?_append_of_not_isDirAt above] at isDir
          cases isDir

theorem bytes?_eq_some_iff {path : String} {content : ByteArray} :
    disk.bytes? path = some content ↔ disk.node? path = some (.file content) := by
  rw [bytes?]
  cases disk.node? path with
  | none => simp
  | some tree => cases tree <;> simp

end Steps

/-- A step by a name leads to the entry of this name. -/
theorem node?_step? (place : List String) {name : String} (isName : IsName name)
    (undotted : name ≠ "." ∧ name ≠ "..") :
    (disk.step? place name).bind (fun place => disk.root.at? place) =
      disk.root.at? (place ++ [name]) := by
  unfold step?
  cases isDir : disk.isDirAt place with
  | false => exact (disk.at?_append_of_not_isDirAt isDir name []).symm
  | true =>
      simp only [Path.isIdle, isName.1, undotted, decide_false, Bool.false_or, Bool.not_true,
        Bool.false_eq_true, ↓reduceIte]
      cases there : disk.root.at? (place ++ [name]) with
      | none => rfl
      | some tree => exact there

theorem exists_entry_eq_append (directory name : String) :
    ∃ rest, Path.entry directory name = directory ++ rest := by
  unfold Path.entry
  split
  · exact ⟨_, rfl⟩
  · exact ⟨_, rfl⟩
  · exact ⟨"/" ++ name, String.append_assoc⟩

theorem isPath_of_append {front rest : String} (filled : front ≠ "")
    (whole : isPath (front ++ rest)) : isPath front := by
  rw [isPath_iff, String.toList_append, String.utf8ByteSize_append] at whole
  rw [isPath_iff]
  obtain ⟨⟨_, noNull⟩, short⟩ := whole
  exact ⟨⟨filled, fun inside => noNull (List.mem_append_left _ inside)⟩, by omega⟩

theorem entry_ne_empty {directory : String} (filled : directory ≠ "") (name : String) :
    Path.entry directory name ≠ "" := by
  obtain ⟨rest, same⟩ := exists_entry_eq_append directory name
  rw [same]
  exact fun empty => filled (String.append_eq_empty_iff.mp empty).1

theorem isPath_of_pathBelow {directory : String} (filled : directory ≠ "")
    (names : List String) (below : isPath (pathBelow directory names)) : isPath directory := by
  induction names generalizing directory with
  | nil => exact below
  | cons name names ih =>
      obtain ⟨rest, same⟩ := exists_entry_eq_append directory name
      have deeper := ih (entry_ne_empty filled name) below
      exact isPath_of_append filled (same ▸ deeper)

theorem foldlM_step?_concat (place : List String) (steps : List String) (piece : String) :
    (steps ++ [piece]).foldlM disk.step? place =
      (steps.foldlM disk.step? place).bind (disk.step? · piece) := by
  simp [List.foldlM_append, bind]

/-- A slash at the end asks for a directory, and only a directory has entries. -/
theorem node?_step?_empty (place : List String) (name : String) :
    (disk.step? place "").bind (fun place => (disk.root.at? place).bind (FileTree.at? [name])) =
      disk.root.at? (place ++ [name]) := by
  unfold step?
  cases isDir : disk.isDirAt place with
  | false => exact (disk.at?_append_of_not_isDirAt isDir name []).symm
  | true => exact (FileTree.at?_append ..).symm

/-- The text of an entry leads to what its directory holds under this name. -/
theorem node?_entry {directory name : String} (isName : IsName name)
    (undotted : name ≠ "." ∧ name ≠ "..") (filled : directory ≠ "")
    (joined : isPath (Path.entry directory name)) :
    disk.node? (Path.entry directory name) =
      (disk.node? directory).bind (FileTree.at? [name]) := by
  obtain ⟨lead, steps, longer, same⟩ := Path.parse_entry filled
  have start (steps : List String) :
      disk.start ⟨lead, steps⟩ = if lead = .root then [] else disk.current := rfl
  have isPath : isPath directory :=
    isPath_of_pathBelow filled [name] joined
  rw [node?, place?_eq disk joined, longer name isName.2.1, start, foldlM_step?_concat,
    Option.bind_assoc, node?, place?_eq disk isPath]
  simp only [node?_step? disk _ isName undotted]
  rcases same with same | same
  · rw [same, start, Option.bind_assoc]
    simp only [FileTree.at?_append]
  · rw [same, start, foldlM_step?_concat, Option.bind_assoc, Option.bind_assoc]
    simp only [node?_step?_empty]

/-- The path of a place below a directory leads to this place. -/
theorem node?_pathBelow {directory : String} {names : List String}
    (areNames : ∀ name ∈ names, IsName name)
    (undotted : ∀ name ∈ names, name ≠ "." ∧ name ≠ "..") (filled : directory ≠ "")
    (isPath : isPath (pathBelow directory names)) :
    disk.node? (pathBelow directory names) = (disk.node? directory).bind (FileTree.at? names) := by
  induction names generalizing directory with
  | nil =>
      show disk.node? directory = (disk.node? directory).bind some
      exact (Option.bind_fun_some _).symm
  | cons name names ih =>
      obtain ⟨isName, areNames⟩ := List.forall_mem_cons.mp areNames
      obtain ⟨noDots, undotted⟩ := List.forall_mem_cons.mp undotted
      have filledEntry := entry_ne_empty filled name
      have joined := isPath_of_pathBelow filledEntry names isPath
      have deeper := ih areNames undotted filledEntry isPath
      rw [pathBelow, List.foldl_cons, ← pathBelow, deeper, disk.node?_entry isName noDots filled joined,
        Option.bind_assoc]
      simp only [← FileTree.at?_append, List.singleton_append]

section Files

variable {disk : Disk}

/-- The place of a file ends in the name of every path that leads there. -/
theorem exists_name_of_file (current : disk.isDirAt disk.current) {text : String}
    {place : List String} {content : ByteArray} (leads : disk.place? text = some place)
    (stands : disk.root.at? place = some (.file content)) :
    ∃ name, (Path.parse text).name? = some name ∧ place.getLast? = some name := by
  have notDir : ¬ disk.isDirAt place := by
    rw [isDirAt, stands]
    exact Bool.false_ne_true
  rw [place?_eq _ (isPath_of_place? leads)] at leads
  generalize Path.parse text = path at leads ⊢
  obtain ⟨lead, pieces⟩ := path
  rcases List.eq_nil_or_concat pieces with rfl | ⟨above, last, rfl⟩
  · cases leads
    refine absurd ?_ notDir
    unfold start
    split
    · exact @isDirAt_of_append disk [] disk.current current
    · exact current
  · rw [List.concat_eq_append, foldlM_step?_concat] at leads
    obtain ⟨directory, _, step⟩ := Option.bind_eq_some_iff.mp leads
    cases step?_eq_some_iff.mp step with
    | idle isDir idle => exact absurd isDir notDir
    | back isDir =>
        rcases List.eq_nil_or_concat directory with rfl | ⟨parent, name, rfl⟩
        · exact absurd isDir notDir
        · rw [List.concat_eq_append] at isDir notDir
          rw [List.dropLast_concat] at notDir
          exact absurd (isDirAt_of_append isDir) notDir
    | down isDir names there =>
        refine ⟨last, ?_, List.getLast?_concat⟩
        rw [List.concat_eq_append, Path.name?_concat lead above names]

end Files

end Disk
end ContractTables
