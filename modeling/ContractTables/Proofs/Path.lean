import ContractTables.Project.Discovery
import ContractTables.Proofs.FileTree

/-!
Texts that lead to the places below a directory. A name has no slash, so different places
have different texts, and a text leads nowhere only if it gets too long. Slashes behind
the text of a directory lead to the same directory.
-/
namespace ContractTables

open FileTree (IsName)

theorem Path.entry_eq_append (directory name : String) :
    Path.entry directory name = Path.entry directory "" ++ name := by
  unfold Path.entry
  split <;> simp [String.append_assoc]

/-- A name ends in no slash, so another one follows it after a slash of its own. -/
theorem Path.entry_append_name (directory : String) {name : String} (isName : IsName name) :
    Path.entry (directory ++ name) "" = directory ++ name ++ "/" := by
  obtain ⟨c, last⟩ := Option.ne_none_iff_exists'.mp
    (mt List.getLast?_eq_none_iff.mp (mt String.toList_eq_nil_iff.mp isName.1))
  have noSlash : c ≠ '/' := fun same => isName.2.1 (same ▸ List.mem_of_getLast? last)
  have lastOfAll : (directory ++ name).toList.getLast? = some c := by
    simp [List.getLast?_append, last]
  rw [Path.entry, lastOfAll]
  split
  · next none => exact absurd none (Option.some_ne_none c)
  · next slash => exact absurd (Option.some.inj slash) noSlash
  · exact String.append_empty

theorem pathBelow_eq_intercalate (directory : String) {names : List String}
    (areNames : ∀ name ∈ names, IsName name) (below : names ≠ []) :
    pathBelow directory names = Path.entry directory "" ++ "/".intercalate names := by
  induction names generalizing directory with
  | nil => exact absurd rfl below
  | cons name names ih =>
      obtain ⟨isName, areNames⟩ := List.forall_mem_cons.mp areNames
      cases names with
      | nil =>
          rw [String.intercalate_singleton]
          exact Path.entry_eq_append directory name
      | cons next names =>
          have deeper := ih (Path.entry directory name) areNames (List.cons_ne_nil _ _)
          rw [pathBelow, List.foldl_cons, ← pathBelow, deeper, Path.entry_eq_append directory name,
            Path.entry_append_name _ isName, String.intercalate_cons_cons]
          simp only [String.append_assoc]

theorem splitOn_intercalate_names {names : List String} (areNames : ∀ name ∈ names, IsName name)
    (below : names ≠ []) :
    ("/".intercalate names).toList.splitOn '/' = names.map String.toList := by
  rw [String.toList_intercalate]
  apply List.splitOn_intercalate '/'
  · intro letters member
    obtain ⟨name, inside, rfl⟩ := List.mem_map.mp member
    exact (areNames name inside).2.1
  · exact mt List.map_eq_nil_iff.mp below

theorem eq_of_pathBelow_eq (directory : String) {names others : List String}
    (areNames : ∀ name ∈ names, IsName name) (below : names ≠ [])
    (otherAreNames : ∀ name ∈ others, IsName name) (otherBelow : others ≠ [])
    (same : pathBelow directory names = pathBelow directory others) : names = others := by
  rw [pathBelow_eq_intercalate directory areNames below,
    pathBelow_eq_intercalate directory otherAreNames otherBelow, String.append_right_inj] at same
  -- No name has a slash, so what stands below the directory splits into the names again.
  have texts : names.map String.toList = others.map String.toList := by
    rw [← splitOn_intercalate_names areNames below, same,
      splitOn_intercalate_names otherAreNames otherBelow]
  exact (List.map_inj_right fun _ _ => String.toList_inj.mp).mp texts

/-- Two files below a directory have different paths. -/
theorem pathBelow_inj {entries : List (String × FileTree)}
    (wellFormed : (FileTree.dir entries).WellFormed) (directory : String)
    {place other : List String} {content otherContent : ByteArray}
    (there : (FileTree.dir entries).at? place = some (.file content))
    (otherThere : (FileTree.dir entries).at? other = some (.file otherContent)) :
    pathBelow directory place = pathBelow directory other ↔ place = other := by
  have below {place : List String} {content : ByteArray}
      (there : (FileTree.dir entries).at? place = some (.file content)) : place ≠ [] := by
    rintro rfl
    cases there
  constructor
  · exact eq_of_pathBelow_eq directory (wellFormed.isName there) (below there)
      (wellFormed.isName otherThere) (below otherThere)
  · exact congrArg (pathBelow directory)

theorem Disk.isPath_iff (text : String) :
    Disk.isPath text = true ↔
      (text ≠ "" ∧ Char.ofNat 0 ∉ text.toList) ∧ text.utf8ByteSize ≤ 4095 := by
  simp [Disk.isPath, and_right_comm]

theorem pathBelow_filled {directory : String} {names : List String}
    (filled : directory ≠ "" ∧ Char.ofNat 0 ∉ directory.toList)
    (areNames : ∀ name ∈ names, IsName name) :
    pathBelow directory names ≠ "" ∧ Char.ofNat 0 ∉ (pathBelow directory names).toList := by
  induction names generalizing directory with
  | nil => exact filled
  | cons name names ih =>
      obtain ⟨isName, areNames⟩ := List.forall_mem_cons.mp areNames
      apply ih _ areNames
      unfold Path.entry
      split <;> simp [filled, isName.2.2]

/-- Below a directory that a path leads to, only the length can keep a text from being a path. -/
theorem isPath_pathBelow {directory : String} {names : List String}
    (isPath : Disk.isPath directory) (areNames : ∀ name ∈ names, IsName name) :
    Disk.isPath (pathBelow directory names) = true ↔
      (pathBelow directory names).utf8ByteSize ≤ 4095 := by
  have filled := pathBelow_filled ((Disk.isPath_iff directory).mp isPath).1 areNames
  simp [Disk.isPath_iff, filled]

theorem Disk.isPath_of_place? {disk : Disk} {text : String} {place : List String}
    (leads : disk.place? text = some place) : Disk.isPath text := by
  unfold Disk.place? at leads
  split at leads
  · assumption
  · cases leads

theorem Disk.isPath_of_node? {disk : Disk} {text : String} {tree : FileTree}
    (there : disk.node? text = some tree) : Disk.isPath text := by
  obtain ⟨place, leads, _⟩ := Option.bind_eq_some_iff.mp there
  exact Disk.isPath_of_place? leads

/-! The current directory under texts of any length. -/

def slashed : Nat → String
  | 0 => "."
  | count + 1 => slashed count ++ "/"

theorem toList_slashed (count : Nat) :
    (slashed count).toList = '.' :: List.replicate count '/' := by
  induction count with
  | zero => rfl
  | succ count ih =>
      rw [slashed, String.toList_append, ih, List.replicate_succ']
      rfl

theorem utf8ByteSize_slashed (count : Nat) : (slashed count).utf8ByteSize = count + 1 := by
  induction count with
  | zero => rfl
  | succ count ih =>
      rw [slashed, String.utf8ByteSize_append, ih]
      rfl

theorem utf8ByteSize_below_slashed {count : Nat} (ends : count ≠ 0) (name : String) :
    (pathBelow (slashed count) [name]).utf8ByteSize = count + 1 + name.utf8ByteSize := by
  cases count with
  | zero => exact absurd rfl ends
  | succ count =>
      have entry : pathBelow (slashed (count + 1)) [name] = slashed (count + 1) ++ name := by
        simp [pathBelow, Path.entry, slashed]
      rw [entry, String.utf8ByteSize_append, utf8ByteSize_slashed]

theorem splitOn_slashes (count : Nat) :
    (List.replicate count '/').splitOn '/' = List.replicate (count + 1) [] := by
  induction count with
  | zero => rfl
  | succ count ih =>
      have first := List.splitOn_append_cons_self (a := '/') [] (List.replicate count '/')
      simpa [ih, List.replicate_succ] using first

theorem parse_slashed (count : Nat) :
    Path.parse (slashed count) = ⟨.current, List.replicate count ""⟩ := by
  have pieces : (slashed count).toList.splitOn '/' = ['.'] :: List.replicate count [] := by
    rw [toList_slashed]
    cases count with
    | zero => rfl
    | succ count =>
        have first := List.splitOn_append_cons_self (a := '/') ['.'] (List.replicate count '/')
        rw [splitOn_slashes] at first
        exact first
  simp [Path.parse, pieces, List.map_replicate]

theorem Disk.foldlM_step?_idle (disk : Disk) {place : List String} (isDir : disk.isDirAt place)
    (count : Nat) : (List.replicate count "").foldlM disk.step? place = some place := by
  induction count with
  | zero => rfl
  | succ count ih => simp [List.replicate_succ, Disk.step?, isDir, Path.isIdle, ih]

theorem Disk.node?_slashed (disk : Disk) (isDir : disk.isDirAt disk.current) {count : Nat}
    (short : count < 4095) : disk.node? (slashed count) = disk.root.at? disk.current := by
  have isPath : Disk.isPath (slashed count) := by
    rw [Disk.isPath_iff, utf8ByteSize_slashed, toList_slashed]
    refine ⟨⟨?_, by simp⟩, by omega⟩
    intro none
    simpa [none] using utf8ByteSize_slashed count
  simp [Disk.node?, Disk.place?, isPath, parse_slashed, Disk.start,
    Disk.foldlM_step?_idle disk isDir]

end ContractTables
