import Mathlib.Data.List.TakeWhile
import ContractTables.Proofs.Project.Batch

/-!
Labels of the files of a project. A label is the name of the project directory, the names
on the way to the file and the front of its own name, so it tells apart files of different
directories and files whose names differ before their first dot. Files of one directory
whose names agree up to the first dot share a label.
-/
namespace ContractTables

open FileTree (IsName)

namespace Path

def activePieces (pieces : List String) : List String := pieces.filter (!isIdle ·)

theorem not_isIdle_of_isName {name : String} (isName : IsName name) (undotted : name ≠ ".") :
    ¬ isIdle name := by
  simp [isIdle, isName.1, undotted]

theorem exists_idle_end (pieces : List String) :
    ∃ idle, (∀ piece ∈ idle, isIdle piece) ∧ pieces = dropIdleEnd pieces ++ idle := by
  refine ⟨(pieces.reverse.takeWhile isIdle).reverse, ?_, ?_⟩
  · intro piece member
    exact List.mem_takeWhile_imp (List.mem_reverse.mp member)
  · rw [dropIdleEnd, ← List.reverse_append, List.takeWhile_append_dropWhile, List.reverse_reverse]

theorem activePieces_append (pieces more : List String) :
    activePieces (pieces ++ more) = activePieces pieces ++ activePieces more :=
  List.filter_append ..

theorem activePieces_eq_nil_iff {pieces : List String} :
    activePieces pieces = [] ↔ ∀ piece ∈ pieces, isIdle piece := by
  simp [activePieces]

theorem activePieces_dropIdleEnd (pieces : List String) :
    activePieces (dropIdleEnd pieces) = activePieces pieces := by
  obtain ⟨idle, allIdle, same⟩ := exists_idle_end pieces
  conv => rhs; rw [same, activePieces_append, activePieces_eq_nil_iff.mpr allIdle, List.append_nil]

/-- Following its own steps leads through a path up to the idle pieces at its end. -/
theorem follow?_activePieces (pieces rest : List String) :
    ∃ idle, (∀ piece ∈ idle, isIdle piece) ∧
      follow? (activePieces pieces) (pieces ++ rest) = some (idle ++ rest) := by
  induction pieces with
  | nil => exact ⟨[], by simp, by simp [activePieces, follow?]⟩
  | cons piece pieces ih =>
      by_cases idle : isIdle piece
      · have same : activePieces (piece :: pieces) = activePieces pieces := by
          simp [activePieces, idle]
        rw [same]
        cases active : activePieces pieces with
        | nil =>
            -- Nothing is left to follow, so all the pieces stay.
            refine ⟨piece :: pieces, ?_, by simp [follow?]⟩
            exact List.forall_mem_cons.mpr ⟨idle, activePieces_eq_nil_iff.mp active⟩
        | cons step steps =>
            rw [active] at ih
            simpa [follow?, idle] using ih
      · simpa [activePieces, follow?, idle] using ih

/-- The path right above a path has neither its last step nor the idle pieces before it. -/
theorem head?_parents (lead : Lead) (above : List String) {name : String}
    (active : ¬ isIdle name) :
    (⟨lead, above ++ [name]⟩ : Path).parents.head? = some ⟨lead, dropIdleEnd above⟩ := by
  by_cases current : lead = .current
  · simp [parents, stepsBack, active, current, dropIdleEnd]
  · simp [parents, stepsBack, active, current, dropIdleEnd]

/-- A text that begins with a name has this name as its first step. -/
theorem activePieces_of_parse {text : String} (filled : text ≠ "") {pieces : List String}
    (parsed : parse text = ⟨.none, pieces⟩) : activePieces pieces ≠ [] := by
  obtain ⟨first, rest, split⟩ := List.exists_cons_of_ne_nil (between_ne_nil text)
  have whole := intercalate_between text
  rw [parse_eq_ofBetween, split] at parsed
  rw [split] at whole
  by_cases root : first = ""
  · subst root
    cases rest with
    | nil => exact absurd whole.symm filled
    | cons second rest => cases parsed
  · by_cases current : first = "."
    · subst current
      cases parsed
    · have same : first :: rest = pieces := by simpa [ofBetween, root, current] using parsed
      subst same
      simp [activePieces, isIdle, root, current]

/-- The text of a place below a directory is that of the directory with the names as steps. -/
theorem parse_pathBelow {directory : String} (filled : directory ≠ "") {names : List String}
    (areNames : ∀ name ∈ names, IsName name) (below : names ≠ []) :
    ∃ lead steps, parse (pathBelow directory names) = ⟨lead, steps ++ names⟩ ∧
      (parse directory = ⟨lead, steps⟩ ∨ parse directory = ⟨lead, steps ++ [""]⟩) := by
  induction names generalizing directory with
  | nil => exact absurd rfl below
  | cons name names ih =>
      obtain ⟨isName, areNames⟩ := List.forall_mem_cons.mp areNames
      obtain ⟨lead, steps, longer, same⟩ := parse_entry filled
      have first := longer name isName.2.1
      cases names with
      | nil => exact ⟨lead, steps, first, same⟩
      | cons next names =>
          obtain ⟨_, _, parsed, deeper⟩ :=
            ih (Disk.entry_ne_empty filled name) areNames (List.cons_ne_nil _ _)
          refine ⟨lead, steps, ?_, same⟩
          rw [first] at deeper
          rcases deeper with deeper | deeper
          · cases deeper
            rw [List.append_assoc] at parsed
            exact parsed
          · simp only [mk.injEq, List.append_singleton_inj] at deeper
            exact absurd deeper.2.2 isName.1

theorem below?_of_active {lead : Lead} {pieces : List String}
    (active : ¬ (lead = .none ∧ activePieces pieces = [])) (whole : List String) :
    below? ⟨lead, pieces⟩ ⟨lead, whole⟩ = (follow? (activePieces pieces) whole).map fun rest =>
      ⟨.none, dropIdleEnd (rest.dropWhile isIdle)⟩ :=
  (if_neg active).trans (if_pos rfl)

/-- Following the steps of a directory leads to the names below it. -/
theorem map_follow?_names (steps : List String) {dirs : List String}
    (active : ∀ name ∈ dirs, ¬ isIdle name) :
    (follow? (activePieces steps) (dropIdleEnd (steps ++ dirs))).map
      (fun rest => dropIdleEnd (rest.dropWhile isIdle)) = some dirs := by
  rcases List.eq_nil_or_concat dirs with rfl | ⟨front, last, rfl⟩
  · obtain ⟨idle, allIdle, followed⟩ := follow?_activePieces (dropIdleEnd steps) []
    rw [activePieces_dropIdleEnd, List.append_nil, List.append_nil] at followed
    rw [List.append_nil, followed, Option.map_some, List.dropWhile_eq_nil_iff.mpr allIdle]
    rfl
  · rw [List.concat_eq_append] at active ⊢
    have lastActive : ¬ isIdle last := active last (by simp)
    have kept : (front ++ [last]).dropWhile isIdle = front ++ [last] := by
      cases front with
      | nil => exact List.dropWhile_cons_of_neg lastActive
      | cons first front => exact List.dropWhile_cons_of_neg (active first (by simp))
    obtain ⟨idle, allIdle, followed⟩ := follow?_activePieces steps (front ++ [last])
    rw [← List.append_assoc, dropIdleEnd_concat _ lastActive, List.append_assoc, followed,
      Option.map_some, List.dropWhile_append_of_pos allIdle, kept, dropIdleEnd_concat _ lastActive]

/-- The names on the way from a directory to one of its places are what is below it there. -/
theorem below?_parent {directory : String} (filled : directory ≠ "") {lead : Lead}
    {steps dirs : List String} (active : ∀ name ∈ dirs, ¬ isIdle name)
    (same : parse directory = ⟨lead, steps⟩ ∨ parse directory = ⟨lead, steps ++ [""]⟩) :
    below? (parse directory) ⟨lead, dropIdleEnd (steps ++ dirs)⟩ = some ⟨.none, dirs⟩ := by
  obtain ⟨pieces, parsed, agree⟩ :
      ∃ pieces, parse directory = ⟨lead, pieces⟩ ∧ activePieces pieces = activePieces steps := by
    rcases same with same | same
    · exact ⟨steps, same, rfl⟩
    · exact ⟨steps ++ [""], same, by simp [activePieces, isIdle]⟩
  have leads : ¬ (lead = .none ∧ activePieces pieces = []) := by
    rintro ⟨rfl, none⟩
    exact activePieces_of_parse filled parsed none
  rw [parsed, below?_of_active leads, agree]
  have followed := congrArg (Option.map (Path.mk .none)) (map_follow?_names steps active)
  rwa [Option.map_map] at followed

end Path

/-! What labels tell apart. -/

def frontOf (name : String) : String := String.ofList (name.toList.takeWhile (· ≠ '.'))

theorem exists_ends_of_intercalate {names : List String} (some : names ≠ []) :
    ∃ first ∈ names, ∃ last ∈ names, ∃ front back,
      "/".intercalate names = first ++ back ∧ "/".intercalate names = front ++ last := by
  induction names with
  | nil => exact absurd rfl some
  | cons name names ih =>
      cases names with
      | nil =>
          refine ⟨name, by simp, name, by simp, "", "", ?_, ?_⟩
          · rw [String.intercalate_singleton, String.append_empty]
          · rw [String.intercalate_singleton, String.empty_append]
      | cons next names =>
          obtain ⟨_, _, last, member, front, _, _, ends⟩ := ih (List.cons_ne_nil _ _)
          refine ⟨name, by simp, last, List.mem_cons_of_mem _ member, name ++ "/" ++ front,
            "/" ++ "/".intercalate (next :: names), ?_, ?_⟩
          · rw [String.intercalate_cons_cons, String.append_assoc]
          · rw [String.intercalate_cons_cons, ends, String.append_assoc, String.append_assoc,
              String.append_assoc]

theorem dropWhile_of_head? {α : Type} {p : α → Bool} {list : List α}
    (kept : ∀ item ∈ list.head?, ¬ p item) : list.dropWhile p = list := by
  cases list with
  | nil => rfl
  | cons first rest => exact List.dropWhile_cons_of_neg (kept first rfl)

theorem stripBoth_of_ends {p : Char → Bool} {text : List Char}
    (first : ∀ c ∈ text.head?, ¬ p c) (last : ∀ c ∈ text.getLast?, ¬ p c) :
    Text.stripBoth p text = text := by
  rw [Text.stripBoth, dropWhile_of_head? first, dropWhile_of_head?, List.reverse_reverse]
  rwa [List.head?_reverse]

/-- Names joined by slashes begin and end in no slash. -/
theorem stripBoth_intercalate {names : List String} (areNames : ∀ name ∈ names, IsName name) :
    Text.stripBoth (· = '/') ("/".intercalate names).toList = ("/".intercalate names).toList := by
  by_cases none : names = []
  · subst none
    rfl
  · obtain ⟨first, firstMember, last, lastMember, front, back, begins, ends⟩ :=
      exists_ends_of_intercalate none
    have noSlash {name : String} (member : name ∈ names) {c : Char} (inside : c ∈ name.toList) :
        ¬ decide (c = '/') = true := by
      rw [decide_eq_true_iff]
      rintro rfl
      exact (areNames name member).2.1 inside
    have letters {name : String} (member : name ∈ names) : name.toList ≠ [] :=
      mt String.toList_eq_nil_iff.mp (areNames name member).1
    apply stripBoth_of_ends
    · intro c head
      rw [begins, String.toList_append, List.head?_append_of_ne_nil _ (letters firstMember)] at head
      exact noSlash firstMember (List.mem_of_head? head)
    · intro c end_
      rw [ends, String.toList_append, List.getLast?_append_of_ne_nil _ (letters lastMember)] at end_
      exact noSlash lastMember (List.mem_of_getLast? end_)

/-- The label of a file below a project directory. -/
theorem fileLabel_pathBelow {root : String} (filled : root ≠ "") {dirs : List String}
    {name : String} (areNames : ∀ step ∈ dirs ++ [name], IsName step)
    (undotted : ∀ step ∈ dirs ++ [name], step ≠ "." ∧ step ≠ "..") :
    fileLabel root (pathBelow root (dirs ++ [name])) =
      (Path.parse root).name?.getD "" ++ "/" ++ "/".intercalate dirs ++ "/" ++ frontOf name := by
  have active (step : String) (member : step ∈ dirs ++ [name]) : ¬ Path.isIdle step :=
    Path.not_isIdle_of_isName (areNames step member) (undotted step member).1
  have last : name ∈ dirs ++ [name] := by simp
  obtain ⟨lead, steps, parsed, same⟩ := Path.parse_pathBelow filled areNames (by simp)
  rw [← List.append_assoc] at parsed
  have above : ((Path.parse (pathBelow root (dirs ++ [name]))).parents.head?.bind
      (Path.below? (Path.parse root))) = some ⟨.none, dirs⟩ := by
    rw [parsed, Path.head?_parents lead _ (active name last), Option.bind_some]
    exact Path.below?_parent filled (fun step member => active step (by simp [member])) same
  have named : (Path.parse (pathBelow root (dirs ++ [name]))).name? = some name := by
    rw [parsed, Path.name?_concat lead _ ⟨active name last, (undotted name last).2⟩]
  have dirNames (step : String) (member : step ∈ dirs) : IsName step :=
    areNames step (by simp [member])
  rw [fileLabel, above, named]
  simp only [Option.map_some, Option.getD_some, Path.text, stripBoth_intercalate dirNames,
    String.ofList_toList, frontOf]

section Apart

variable {root : String} {dirs otherDirs : List String} {name otherName : String}

theorem intercalate_names_inj (areNames : ∀ step ∈ dirs, IsName step)
    (otherAreNames : ∀ step ∈ otherDirs, IsName step) :
    "/".intercalate dirs = "/".intercalate otherDirs ↔ dirs = otherDirs := by
  have filled {names : List String} (areNames : ∀ step ∈ names, IsName step) (some : names ≠ []) :
      "/".intercalate names ≠ "" := by
    obtain ⟨first, member, _, _, _, _, begins, _⟩ := exists_ends_of_intercalate some
    rw [begins]
    exact fun empty => (areNames first member).1 (String.append_eq_empty_iff.mp empty).1
  constructor
  · intro same
    by_cases none : dirs = []
    · by_cases otherNone : otherDirs = []
      · rw [none, otherNone]
      · rw [none] at same
        exact absurd same.symm (filled otherAreNames otherNone)
    · by_cases otherNone : otherDirs = []
      · rw [otherNone] at same
        exact absurd same (filled areNames none)
      · -- No name has a slash, so the joined text splits into the names again.
        have texts : dirs.map String.toList = otherDirs.map String.toList := by
          rw [← splitOn_intercalate_names areNames none, same,
            splitOn_intercalate_names otherAreNames otherNone]
        exact (List.map_inj_right fun _ _ => String.toList_inj.mp).mp texts
  · exact congrArg _

theorem noSlash_frontOf (isName : IsName name) : '/' ∉ (frontOf name).toList := by
  rw [frontOf, String.toList_ofList]
  exact fun inside => isName.2.1 ((List.takeWhile_sublist _).subset inside)

/-- A text without slashes behind the last slash can be told from what stands before it. -/
theorem append_slash_inj {before otherBefore after otherAfter : String}
    (noSlash : '/' ∉ after.toList) (otherNoSlash : '/' ∉ otherAfter.toList) :
    before ++ "/" ++ after = otherBefore ++ "/" ++ otherAfter ↔
      before = otherBefore ∧ after = otherAfter := by
  constructor
  · intro same
    have cut := congrArg (fun text => Text.cutLast? ['/'] text.toList) same
    simp only [String.toList_append, List.append_assoc] at cut
    have first := Text.cutLast?_append before.toList noSlash
    have second := Text.cutLast?_append otherBefore.toList otherNoSlash
    have pieces := Option.some.inj (first.symm.trans (cut.trans second))
    exact ⟨String.toList_inj.mp (congrArg Prod.fst pieces),
      String.toList_inj.mp (congrArg Prod.snd pieces)⟩
  · rintro ⟨rfl, rfl⟩
    rfl

/-- Two files below a project directory share a label exactly if they stand in the same
directory and their names agree up to the first dot. -/
theorem fileLabel_eq_iff (filled : root ≠ "")
    (areNames : ∀ step ∈ dirs ++ [name], IsName step)
    (undotted : ∀ step ∈ dirs ++ [name], step ≠ "." ∧ step ≠ "..")
    (otherAreNames : ∀ step ∈ otherDirs ++ [otherName], IsName step)
    (otherUndotted : ∀ step ∈ otherDirs ++ [otherName], step ≠ "." ∧ step ≠ "..") :
    fileLabel root (pathBelow root (dirs ++ [name])) =
        fileLabel root (pathBelow root (otherDirs ++ [otherName])) ↔
      dirs = otherDirs ∧ frontOf name = frontOf otherName := by
  rw [fileLabel_pathBelow filled areNames undotted,
    fileLabel_pathBelow filled otherAreNames otherUndotted,
    append_slash_inj (noSlash_frontOf (areNames name (by simp)))
      (noSlash_frontOf (otherAreNames otherName (by simp))),
    String.append_right_inj,
    intercalate_names_inj (fun step member => areNames step (by simp [member]))
      (fun step member => otherAreNames step (by simp [member]))]

end Apart

def OneDotted (name : String) : Prop := ∃ stem, '.' ∉ stem.toList ∧ name = stem ++ ".sol"

theorem frontOf_of_noDot {stem : String} (noDot : '.' ∉ stem.toList) :
    frontOf (stem ++ ".sol") = stem := by
  have kept : ∀ c ∈ stem.toList, decide (c ≠ '.') = true := by
    intro c inside
    exact decide_eq_true fun same => noDot (same ▸ inside)
  apply String.toList_inj.mp
  rw [frontOf, String.toList_ofList, String.toList_append, List.takeWhile_append_of_pos kept]
  exact List.append_nil _

theorem OneDotted.frontOf_inj {name other : String} (oneDot : OneDotted name)
    (otherOneDot : OneDotted other) : frontOf name = frontOf other ↔ name = other := by
  obtain ⟨stem, noDot, rfl⟩ := oneDot
  obtain ⟨otherStem, otherNoDot, rfl⟩ := otherOneDot
  rw [frontOf_of_noDot noDot, frontOf_of_noDot otherNoDot, String.append_left_inj]

/-! Discovered files. -/

section Discovered

variable {disk : Disk} {root : String} {options : WalkOptions} {settings : Settings}
  {reader : PatternReader} {paths : List String}

/-- A discovered path is that of a place below the project directory. -/
theorem exists_place_of_discover (sound : disk.Sound)
    (found : discover disk root options settings reader = .ok paths) :
    root ≠ "" ∧ ∀ path ∈ paths, ∃ dirs name, path = pathBelow root (dirs ++ [name]) ∧
      (∀ step ∈ dirs ++ [name], IsName step) ∧
      ∀ step ∈ dirs ++ [name], step ≠ "." ∧ step ≠ ".." := by
  obtain ⟨entries, filters, atRoot, _, rfl⟩ := exists_of_discover_eq_ok found
  obtain ⟨wellFormed, undotted⟩ := sound.of_node? atRoot
  refine ⟨((Disk.isPath_iff root).mp (Disk.isPath_of_node? atRoot)).1.1, ?_⟩
  intro path among
  obtain ⟨place, member, rfl⟩ := List.mem_map.mp among
  obtain ⟨_, stands⟩ := FileTree.exists_file_of_mem_selectEntries wellFormed member
  rcases List.eq_nil_or_concat place with rfl | ⟨dirs, name, rfl⟩
  · exact absurd member FileTree.nil_notMem_selectEntries
  · rw [List.concat_eq_append] at stands ⊢
    exact ⟨dirs, name, rfl, wellFormed.isName stands, (undotted.of_at? wellFormed stands).1⟩

/-- Two discovered files share a label exactly if they stand in the same directory and their
names agree up to the first dot. So Solidity files with no other dot in their names are told
apart by their labels. -/
theorem labels_shared_iff (sound : disk.Sound)
    (found : discover disk root options settings reader = .ok paths) {path other : String}
    (among : path ∈ paths) (otherAmong : other ∈ paths) :
    ∃ dirs name otherDirs otherName, path = pathBelow root (dirs ++ [name]) ∧
      other = pathBelow root (otherDirs ++ [otherName]) ∧
      (path = other ↔ dirs = otherDirs ∧ name = otherName) ∧
      (fileLabel root path = fileLabel root other ↔
        dirs = otherDirs ∧ frontOf name = frontOf otherName) ∧
      (OneDotted name → OneDotted otherName →
        (fileLabel root path = fileLabel root other ↔ path = other)) := by
  obtain ⟨filled, placed⟩ := exists_place_of_discover sound found
  obtain ⟨dirs, name, rfl, areNames, undotted⟩ := placed path among
  obtain ⟨otherDirs, otherName, rfl, otherAreNames, otherUndotted⟩ := placed other otherAmong
  have samePath : pathBelow root (dirs ++ [name]) = pathBelow root (otherDirs ++ [otherName]) ↔
      dirs = otherDirs ∧ name = otherName := by
    constructor
    · intro same
      simpa using eq_of_pathBelow_eq root areNames (by simp) otherAreNames (by simp) same
    · rintro ⟨rfl, rfl⟩
      rfl
  have sameLabel := fileLabel_eq_iff filled areNames undotted otherAreNames otherUndotted
  refine ⟨dirs, name, otherDirs, otherName, rfl, rfl, samePath, sameLabel, ?_⟩
  intro oneDot otherOneDot
  rw [sameLabel, samePath, oneDot.frontOf_inj otherOneDot]

end Discovered

def tokenFiles : List (String × String) :=
  [("Token.sol", ""), ("Token.t.sol", ""), ("Vault.sol", "")]

theorem sound_tokenDisk : (flatDisk tokenFiles).Sound := sound_flatDisk (by decide) (by decide)

theorem discover_tokenDisk : discover (flatDisk tokenFiles) "dao" { useDefaults := false } {} =
    .ok ["dao/Token.sol", "dao/Token.t.sol", "dao/Vault.sol"] :=
  discover_flatDisk tokenFiles

theorem labels_of_tests_and_vault :
    (flatDisk tokenFiles).Sound ∧
      discover (flatDisk tokenFiles) "dao" { useDefaults := false } {} =
        .ok ["dao/Token.sol", "dao/Token.t.sol", "dao/Vault.sol"] ∧
      ∃ dirs name otherDirs otherName,
        "dao/Token.t.sol" = pathBelow "dao" (dirs ++ [name]) ∧
        "dao/Vault.sol" = pathBelow "dao" (otherDirs ++ [otherName]) ∧
        ("dao/Token.t.sol" = "dao/Vault.sol" ↔ dirs = otherDirs ∧ name = otherName) ∧
        (fileLabel "dao" "dao/Token.t.sol" = fileLabel "dao" "dao/Vault.sol" ↔
          dirs = otherDirs ∧ frontOf name = frontOf otherName) := by
  refine ⟨sound_tokenDisk, discover_tokenDisk, ?_⟩
  have tests : "dao/Token.t.sol" ∈ ["dao/Token.sol", "dao/Token.t.sol", "dao/Vault.sol"] := by
    decide
  have vault : "dao/Vault.sol" ∈ ["dao/Token.sol", "dao/Token.t.sol", "dao/Vault.sol"] := by
    decide
  obtain ⟨dirs, name, otherDirs, otherName, place, otherPlace, samePath, sameLabel, _⟩ :=
    labels_shared_iff sound_tokenDisk discover_tokenDisk tests vault
  exact ⟨dirs, name, otherDirs, otherName, place, otherPlace, samePath, sameLabel⟩

/-- A contract and its tests go by one label. -/
theorem label_shared_with_tests :
    (flatDisk tokenFiles).Sound ∧
      ∃ paths, discover (flatDisk tokenFiles) "dao" { useDefaults := false } {} = .ok paths ∧
        "dao/Token.sol" ∈ paths ∧ "dao/Token.t.sol" ∈ paths ∧
        Filters.isSolidity "dao/Token.sol" ∧ Filters.isSolidity "dao/Token.t.sol" ∧
        "dao/Token.sol" ≠ "dao/Token.t.sol" ∧
        fileLabel "dao" "dao/Token.sol" = fileLabel "dao" "dao/Token.t.sol" :=
  ⟨sound_tokenDisk, _, discover_tokenDisk, by decide, by decide, by decide, by decide, by decide,
    by decide +kernel⟩

end ContractTables
