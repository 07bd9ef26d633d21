import ContractTables.Project.Discovery
import ContractTables.Proofs.Path
import ContractTables.Proofs.Text.ByteOrder

/-!
What a walk of a project directory finds. A file is listed exactly if the options keep its
name and the names of all directories on the way to it, whatever the project directory is
called; it is listed once, and the order is that of the names on the way as bytes. A kept
directory that no path leads to because it would have more than 4095 bytes ends the walk,
and nothing else does.
-/
namespace ContractTables

/-! What the options keep. -/

def WalkOptions.Enters (options : WalkOptions) (settings : Settings) (name : String) : Prop :=
  if options.includedDirs ≠ [] then name ∈ options.includedDirs
  else name ∉ options.excludedDirs ∧ (options.useDefaults → name ∉ settings.excludedDirs)

def WalkOptions.Takes (options : WalkOptions) (settings : Settings) (reader : PatternReader)
    (name : String) : Prop :=
  if options.includedFiles ≠ [] then name ∈ options.includedFiles
  else (∃ stem, name = stem ++ ".sol") ∧ name ∉ options.excludedFiles ∧
    (options.useDefaults → name ∉ settings.excludedFiles ∧
      ∀ text ∈ settings.excludedFilePatterns, ¬ (reader text).any (· name))

theorem Filters.isSolidity_iff (name : String) :
    Filters.isSolidity name ↔ ∃ stem, name = stem ++ ".sol" := by
  simp only [Filters.isSolidity, Text.dropEndMark?, Option.isSome_map, Option.isSome_iff_exists,
    Text.dropMark?_eq_some_iff]
  constructor
  · rintro ⟨rest, same⟩
    refine ⟨String.ofList rest.reverse, String.toList_inj.mp ?_⟩
    rw [String.toList_append, String.toList_ofList, ← List.reverse_inj, same, List.reverse_append,
      List.reverse_reverse]
  · rintro ⟨stem, rfl⟩
    exact ⟨stem.toList.reverse, by rw [String.toList_append, List.reverse_append]⟩

theorem Filters.mapM_readPattern {reader : PatternReader} {texts : List String}
    (readable : ∀ text ∈ texts, (reader text).isSome) :
    texts.mapM (Filters.readPattern reader) = .ok (texts.filterMap reader) := by
  induction texts with
  | nil => rfl
  | cons text texts ih =>
      obtain ⟨first, others⟩ := List.forall_mem_cons.mp readable
      obtain ⟨found, read⟩ := Option.isSome_iff_exists.mp first
      simp only [List.mapM_cons, Filters.readPattern, read, ih others, List.filterMap_cons]
      rfl

theorem Filters.keepDir_iff (filters : Filters) (name : String) :
    filters.keepDir name ↔
      if filters.includedDirs ≠ [] then name ∈ filters.includedDirs
      else name ∉ filters.excludedDirs := by
  unfold Filters.keepDir
  cases filters.includedDirs <;> simp

theorem Filters.keepFile_iff (filters : Filters) (name : String) :
    filters.keepFile name ↔
      if filters.includedFiles ≠ [] then name ∈ filters.includedFiles
      else (∃ stem, name = stem ++ ".sol") ∧ name ∉ filters.excludedFiles ∧
        ∀ found ∈ filters.patterns, ¬ found name := by
  unfold Filters.keepFile
  cases filters.includedFiles <;> simp [Filters.isSolidity_iff, and_assoc]

theorem Filters.unmatched_iff (reader : PatternReader) (texts : List String) (name : String) :
    (∀ found ∈ texts.filterMap reader, ¬ found name) ↔
      ∀ text ∈ texts, ¬ (reader text).any (· name) := by
  simp only [List.mem_filterMap, Option.any_eq_true]
  constructor
  · rintro none text member ⟨found, read, hit⟩
    exact none found ⟨text, member, read⟩ hit
  · rintro none found ⟨text, member, read⟩ hit
    exact none text member ⟨found, read, hit⟩

structure Filters.Follow (filters : Filters) (options : WalkOptions) (settings : Settings)
    (reader : PatternReader) : Prop where
  enters : ∀ name, filters.keepDir name ↔ options.Enters settings name
  takes : ∀ name, filters.keepFile name ↔ options.Takes settings reader name

/-- With readable patterns there are filters, and they follow the options. -/
theorem Filters.exists_of {options : WalkOptions} {settings : Settings} {reader : PatternReader}
    (readable : options.useDefaults →
      ∀ text ∈ settings.excludedFilePatterns, (reader text).isSome) :
    ∃ filters, Filters.of reader options settings = .ok filters ∧
      filters.Follow options settings reader := by
  cases defaults : options.useDefaults with
  | false =>
      refine ⟨⟨options.excludedDirs, options.includedDirs, options.excludedFiles,
        options.includedFiles, []⟩, ?_, ?_, ?_⟩
      · simp only [Filters.of, defaults, Bool.false_eq_true, ↓reduceIte, List.append_nil]
        rfl
      · intro name
        simp [Filters.keepDir_iff, WalkOptions.Enters, defaults]
      · intro name
        simp [Filters.keepFile_iff, WalkOptions.Takes, defaults]
  | true =>
      have read := Filters.mapM_readPattern (readable defaults)
      refine ⟨⟨options.excludedDirs ++ settings.excludedDirs, options.includedDirs,
        options.excludedFiles ++ settings.excludedFiles, options.includedFiles,
        settings.excludedFilePatterns.filterMap reader⟩, ?_, ?_, ?_⟩
      · simp only [Filters.of, defaults, ↓reduceIte, read]
        rfl
      · intro name
        simp [Filters.keepDir_iff, WalkOptions.Enters, defaults]
      · intro name
        simp only [Filters.keepFile_iff, Filters.unmatched_iff, WalkOptions.Takes, defaults,
          List.mem_append, not_or, and_assoc, forall_const]

/-! What a walk lists. -/

def WalkOptions.Reaches (options : WalkOptions) (settings : Settings) (tree : FileTree)
    (dirs : List String) : Prop :=
  (∃ entries, tree.at? dirs = some (.dir entries)) ∧
    ∀ directory ∈ dirs, options.Enters settings directory

structure Selection (options : WalkOptions) (settings : Settings) (reader : PatternReader)
    (root : String) (tree : FileTree) (paths : List String) : Prop where
  mem_iff : ∀ dirs name content, tree.at? (dirs ++ [name]) = some (.file content) →
    (pathBelow root (dirs ++ [name]) ∈ paths ↔
      (∀ directory ∈ dirs, options.Enters settings directory) ∧
        options.Takes settings reader name)
  nodup : paths.Nodup
  ordered : ∃ places : List (List String), paths = places.map (pathBelow root) ∧
    (∀ place ∈ places, ∃ content, tree.at? place = some (.file content)) ∧
    places.Pairwise fun earlier later => earlier.map Text.bytes < later.map Text.bytes

variable {options : WalkOptions} {settings : Settings} {reader : PatternReader} {root : String}
  {entries : List (String × FileTree)} {filters : Filters}

theorem selection_selectEntries (wellFormed : (FileTree.dir entries).WellFormed)
    (follow : filters.Follow options settings reader) :
    Selection options settings reader root (.dir entries)
      ((FileTree.selectEntries filters.keepDir filters.keepFile entries).map
        (pathBelow root)) := by
  have sorted : (FileTree.selectEntries filters.keepDir filters.keepFile entries).Pairwise
      (· < ·) := wellFormed.pairwise_selectEntries
  constructor
  · intro dirs name content there
    have listed :
        dirs ++ [name] ∈ FileTree.selectEntries filters.keepDir filters.keepFile entries ↔
          (∀ directory ∈ dirs, options.Enters settings directory) ∧
            options.Takes settings reader name := by
      simp [FileTree.mem_selectEntries wellFormed, follow.enters, follow.takes, there]
    rw [← listed, List.mem_map]
    constructor
    · rintro ⟨place, member, same⟩
      obtain ⟨_, stands⟩ := FileTree.exists_file_of_mem_selectEntries wellFormed member
      exact (pathBelow_inj wellFormed root stands there).mp same ▸ member
    · intro member
      exact ⟨_, member, rfl⟩
  · apply List.pairwise_map.mpr
    apply sorted.imp_of_mem
    intro earlier later first second less same
    obtain ⟨_, stands⟩ := FileTree.exists_file_of_mem_selectEntries wellFormed first
    obtain ⟨_, otherStands⟩ := FileTree.exists_file_of_mem_selectEntries wellFormed second
    have equal := (pathBelow_inj wellFormed root stands otherStands).mp same
    exact List.lt_irrefl _ (equal ▸ less)
  · refine ⟨_, rfl, ?_, ?_⟩
    · intro place member
      exact FileTree.exists_file_of_mem_selectEntries wellFormed member
    · exact sorted.imp Text.map_bytes_lt

theorem discover_eq {disk : Disk} (atRoot : disk.node? root = some (.dir entries))
    (valid : options.validate = .ok ()) (made : Filters.of reader options settings = .ok filters) :
    discover disk root options settings reader =
      match unlisted? filters root entries with
      | some path => .error (.unlisted path)
      | none => .ok ((FileTree.selectEntries filters.keepDir filters.keepFile entries).map
          (pathBelow root)) := by
  simp only [discover, discoverBelow, atRoot, valid, made, bind, Except.bind]
  cases unlisted? filters root entries with
  | some path => rfl
  | none => rfl

theorem isPath_of_reaches (wellFormed : (FileTree.dir entries).WellFormed)
    (isPath : Disk.isPath root) {dirs : List String}
    (reaches : options.Reaches settings (.dir entries) dirs) :
    Disk.isPath (pathBelow root dirs) = true ↔ (pathBelow root dirs).utf8ByteSize ≤ 4095 := by
  obtain ⟨⟨_, there⟩, _⟩ := reaches
  exact isPath_pathBelow isPath (wellFormed.isName there)

theorem mem_entered_iff_reaches (wellFormed : (FileTree.dir entries).WellFormed)
    (follow : filters.Follow options settings reader) (dirs : List String) :
    dirs ∈ FileTree.entered filters.keepDir entries ↔
      dirs ≠ [] ∧ options.Reaches settings (.dir entries) dirs := by
  simp only [FileTree.mem_entered wellFormed, follow.enters, WalkOptions.Reaches, and_comm]

theorem exists_long_of_unlisted? (wellFormed : (FileTree.dir entries).WellFormed)
    (isPath : Disk.isPath root) (follow : filters.Follow options settings reader) {path : String}
    (first : unlisted? filters root entries = some path) :
    ∃ dirs, options.Reaches settings (.dir entries) dirs ∧
      4095 < (pathBelow root dirs).utf8ByteSize ∧ path = pathBelow root dirs := by
  obtain ⟨dirs, inside, rfl⟩ := List.mem_map.mp (List.mem_of_find?_eq_some first)
  have reaches := ((mem_entered_iff_reaches wellFormed follow dirs).mp inside).2
  refine ⟨dirs, reaches, ?_, rfl⟩
  rw [← Nat.not_le, ← isPath_of_reaches wellFormed isPath reaches]
  simpa using List.find?_some first

theorem short_of_unlisted?_eq_none (wellFormed : (FileTree.dir entries).WellFormed)
    (isPath : Disk.isPath root) (follow : filters.Follow options settings reader)
    (none : unlisted? filters root entries = none) {dirs : List String}
    (reaches : options.Reaches settings (.dir entries) dirs) :
    (pathBelow root dirs).utf8ByteSize ≤ 4095 := by
  rw [← isPath_of_reaches wellFormed isPath reaches]
  by_cases here : dirs = []
  · exact here ▸ isPath
  · have inside := (mem_entered_iff_reaches wellFormed follow dirs).mpr ⟨here, reaches⟩
    simpa using List.find?_eq_none.mp none _ (List.mem_map_of_mem inside)

/-! A project with a directory, a file whose name begins alike and a library, which the
settings leave out. -/

theorem standardPatterns_readable :
    ∀ text ∈ ({} : Settings).excludedFilePatterns, (Pattern.read? text).isSome := by
  decide +kernel

def daoEntries : List (String × FileTree) :=
  [("a", .dir [("x.sol", .file .empty)]), ("a.sol", .file .empty),
    ("lib", .dir [("Safe.sol", .file .empty)])]

def daoDisk : Disk := ⟨.dir [("dao", .dir daoEntries)], []⟩

theorem wellFormed_daoEntries : (FileTree.dir daoEntries).WellFormed := by
  have inA := FileTree.wellFormed_empty.put ["a", "x.sol"] (by decide) (.file .empty)
  have besideA := inA.put ["a.sol"] (by decide) (.file .empty)
  exact besideA.put ["lib", "Safe.sol"] (by decide) (.file .empty)

theorem discover_dao : discover daoDisk "dao" {} {} = .ok ["dao/a/x.sol", "dao/a.sol"] := by
  obtain ⟨filters, made, ⟨enters, takes⟩⟩ :=
    @Filters.exists_of {} {} Pattern.read? fun _ => standardPatterns_readable
  have entersA : filters.keepDir "a" := (enters "a").mpr ⟨by decide, fun _ => by decide⟩
  have skipsLib : filters.keepDir "lib" = false := by
    apply Bool.eq_false_iff.mpr
    intro entered
    exact absurd (((enters "lib").mp entered).2 rfl) (by decide)
  have takesX : filters.keepFile "x.sol" :=
    (takes "x.sol").mpr ⟨⟨"x", by decide⟩, by decide, fun _ => ⟨by decide, by decide +kernel⟩⟩
  have takesA : filters.keepFile "a.sol" :=
    (takes "a.sol").mpr ⟨⟨"a", by decide⟩, by decide, fun _ => ⟨by decide, by decide +kernel⟩⟩
  have atRoot : daoDisk.node? "dao" = some (.dir daoEntries) := rfl
  have short : Disk.isPath (pathBelow "dao" ["a"]) := by decide
  rw [discover_eq atRoot rfl made]
  simp [daoEntries, unlisted?, FileTree.entered, FileTree.selectEntries, entersA, skipsLib,
    takesX, takesA, short]
  decide

def governanceEntries : List (String × FileTree) :=
  [("governance", .dir [("Poll.sol", .file .empty)])]

def governanceDisk : Disk := ⟨.dir governanceEntries, []⟩

/-- A walk lists what the options keep, unless it reaches a directory whose path is too long;
then it ends with that path. -/
theorem discover_selects (disk : Disk) (root : String) (options : WalkOptions)
    (settings : Settings) (reader : PatternReader) (entries : List (String × FileTree))
    (atRoot : disk.node? root = some (.dir entries))
    (wellFormed : (FileTree.dir entries).WellFormed)
    (valid : options.validate = .ok ())
    (readable : options.useDefaults →
      ∀ text ∈ settings.excludedFilePatterns, (reader text).isSome) :
    match discover disk root options settings reader with
    | .ok paths =>
        Selection options settings reader root (.dir entries) paths ∧
          ∀ dirs, options.Reaches settings (.dir entries) dirs →
            (pathBelow root dirs).utf8ByteSize ≤ 4095
    | .error failure =>
        ∃ dirs, options.Reaches settings (.dir entries) dirs ∧
          4095 < (pathBelow root dirs).utf8ByteSize ∧
          failure = .unlisted (pathBelow root dirs) := by
  obtain ⟨filters, made, follow⟩ := Filters.exists_of readable
  have isPath := Disk.isPath_of_node? atRoot
  rw [discover_eq atRoot valid made]
  cases first : unlisted? filters root entries with
  | some path =>
      obtain ⟨dirs, reaches, long, rfl⟩ := exists_long_of_unlisted? wellFormed isPath follow first
      exact ⟨dirs, reaches, long, rfl⟩
  | none =>
      refine ⟨selection_selectEntries wellFormed follow, ?_⟩
      intro dirs reaches
      exact short_of_unlisted?_eq_none wellFormed isPath follow first reaches

theorem discover_selects_dao :
    daoDisk.node? "dao" = some (.dir daoEntries) ∧
      (FileTree.dir daoEntries).WellFormed ∧ WalkOptions.validate {} = .ok () ∧
      (∀ text ∈ ({} : Settings).excludedFilePatterns, (Pattern.read? text).isSome) ∧
      discover daoDisk "dao" {} {} = .ok ["dao/a/x.sol", "dao/a.sol"] ∧
      Selection {} {} Pattern.read? "dao" (.dir daoEntries) ["dao/a/x.sol", "dao/a.sol"] := by
  have selects := discover_selects daoDisk "dao" {} {} Pattern.read? daoEntries rfl
    wellFormed_daoEntries rfl fun _ => standardPatterns_readable
  rw [discover_dao] at selects
  exact ⟨rfl, wellFormed_daoEntries, rfl, standardPatterns_readable, discover_dao, selects.1⟩

/-- A file whose names are all kept is not found below a directory of 4101 bytes. -/
theorem undiscovered_below_slashed :
    governanceDisk.node? (slashed 4090) = some (.dir governanceEntries) ∧
      (FileTree.dir governanceEntries).WellFormed ∧ WalkOptions.validate {} = .ok () ∧
      (∀ text ∈ ({} : Settings).excludedFilePatterns, (Pattern.read? text).isSome) ∧
      (FileTree.dir governanceEntries).at? (["governance"] ++ ["Poll.sol"]) =
        some (.file .empty) ∧
      WalkOptions.Enters {} {} "governance" ∧
      WalkOptions.Takes {} {} Pattern.read? "Poll.sol" ∧
      ¬ ∃ paths, discover governanceDisk (slashed 4090) {} {} = .ok paths := by
  have atRoot : governanceDisk.node? (slashed 4090) = some (.dir governanceEntries) :=
    governanceDisk.node?_slashed rfl (by decide)
  have wellFormed : (FileTree.dir governanceEntries).WellFormed :=
    FileTree.wellFormed_empty.put ["governance", "Poll.sol"] (by decide) (.file .empty)
  have entered : WalkOptions.Enters {} {} "governance" := ⟨by decide, fun _ => by decide⟩
  have taken : WalkOptions.Takes {} {} Pattern.read? "Poll.sol" :=
    ⟨⟨"Poll", by decide⟩, by decide, fun _ => ⟨by decide, by decide +kernel⟩⟩
  refine ⟨atRoot, wellFormed, rfl, standardPatterns_readable, rfl, entered, taken, ?_⟩
  rintro ⟨paths, found⟩
  obtain ⟨filters, made, follow⟩ :=
    @Filters.exists_of {} {} Pattern.read? fun _ => standardPatterns_readable
  have reaches : WalkOptions.Reaches {} {} (.dir governanceEntries) ["governance"] :=
    ⟨⟨_, rfl⟩, by simpa using entered⟩
  rw [discover_eq atRoot rfl made] at found
  cases first : unlisted? filters (slashed 4090) governanceEntries with
  | some path => simp [first] at found
  | none =>
      have short := short_of_unlisted?_eq_none wellFormed (Disk.isPath_of_node? atRoot) follow
        first reaches
      have name : "governance".utf8ByteSize = 10 := by decide
      rw [utf8ByteSize_below_slashed (by decide), name] at short
      omega

end ContractTables
