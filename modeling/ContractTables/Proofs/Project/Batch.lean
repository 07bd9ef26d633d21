import Mathlib.Algebra.Ring.Nat
import Mathlib.Data.List.Sort
import ContractTables.Project
import ContractTables.Proofs.Disk.Places
import ContractTables.Proofs.Project.Discovery

/-!
A project file by file. Every discovered path is parsed or set aside, for a reason that
lies in its own source and syntax tree, and both lists keep the order of the walk. What
other files hold, and which of them there are, changes neither the tables of a file nor its
place among the files that stay.
-/
namespace ContractTables

def treePaths (source : String) : List String :=
  [source ++ ".json", ((Path.parse source).withExtension "json").text]

inductive Unparsed (disk : Disk) (settings : Settings) (source : String) : Prop where
  | noTree (none : ∀ path ∈ treePaths source, ¬ disk.isFile path)
  | unreadableTree {path : String} (stands : treePath? disk source = some path)
      (unread : disk.read? path = none)
  | invalidTree {path text : String} (stands : treePath? disk source = some path)
      (read : disk.read? path = some text) (invalid : Json.load? text.toList = none)
  | unreadableSource (unread : disk.read? source = none)
  | rejected {path text : String} {root : Node} {fault : Fault}
      (stands : treePath? disk source = some path) (read : disk.read? path = some text)
      (loaded : Json.load? text.toList = some root)
      (extracted : Tables.extract root settings.ignoredContracts = .error fault)

section Reasons

variable {disk : Disk} {settings : Settings}

theorem treePath?_eq_none_iff {source : String} :
    treePath? disk source = none ↔ ∀ path ∈ treePaths source, ¬ disk.isFile path :=
  List.find?_eq_none

theorem parseSource_eq (settings : Settings) (root : Node) (source : String) :
    Tables.parseSource settings root source =
      (Tables.extract root settings.ignoredContracts).map fun tables =>
        (tables.annotate (Text.lines source.toList)).code settings.taxonomy := rfl

/-- What a source file needs to have tables. -/
theorem not_unparsed {source path text lines : String} {tree : Node} {bare : Tables}
    (stands : treePath? disk source = some path) (read : disk.read? path = some text)
    (loaded : Json.load? text.toList = some tree) (source? : disk.read? source = some lines)
    (extracted : Tables.extract tree settings.ignoredContracts = .ok bare) :
    ¬ Unparsed disk settings source := by
  intro unparsed
  cases unparsed with
  | noTree none =>
      rw [treePath?_eq_none_iff.mpr none] at stands
      cases stands
  | unreadableTree other unread =>
      cases stands.symm.trans other
      cases read.symm.trans unread
  | invalidTree other otherRead invalid =>
      cases stands.symm.trans other
      cases read.symm.trans otherRead
      cases loaded.symm.trans invalid
  | unreadableSource unread => cases source?.symm.trans unread
  | rejected other otherRead otherLoaded rejected =>
      cases stands.symm.trans other
      cases read.symm.trans otherRead
      cases loaded.symm.trans otherLoaded
      cases extracted.symm.trans rejected

/-- A file has tables unless one of the reasons is given. -/
theorem unparsed_iff (root source : String) :
    Unparsed disk settings source ↔
      (parseProjectFile disk settings root source).toOption.isNone := by
  rw [parseProjectFile]
  cases stands : treePath? disk source with
  | none => exact iff_of_true (.noTree (treePath?_eq_none_iff.mp stands)) rfl
  | some path =>
      simp only [parseFile, loadTree]
      cases read : disk.read? path with
      | none => exact iff_of_true (.unreadableTree stands read) rfl
      | some text =>
          dsimp only
          cases loaded : Json.load? text.toList with
          | none => exact iff_of_true (.invalidTree stands read loaded) rfl
          | some tree =>
              cases source? : disk.read? source with
              | none => exact iff_of_true (.unreadableSource source?) rfl
              | some lines =>
                  simp only [parseSource_eq, bind, Except.bind]
                  cases extracted : Tables.extract tree settings.ignoredContracts with
                  | error fault =>
                      exact iff_of_true (.rejected stands read loaded extracted) rfl
                  | ok bare =>
                      refine iff_of_false ?_ Bool.false_ne_true
                      exact not_unparsed stands read loaded source? extracted

instance (source : String) : Decidable (Unparsed disk settings source) :=
  decidable_of_iff _ (unparsed_iff "" source).symm

theorem decide_unparsed (root source : String) :
    decide (Unparsed disk settings source) =
      (parseProjectFile disk settings root source).toOption.isNone := by
  simp only [unparsed_iff root, Bool.decide_eq_true]

/-- A file that is parsed goes by its own path. -/
theorem path_of_parseProjectFile {root source : String} {file : ParsedFile}
    (parsed : parseProjectFile disk settings root source = .ok file) : file.path = source := by
  rw [parseProjectFile] at parsed
  split at parsed
  · cases parsed
  · next path stands =>
      cases made : parseFile disk settings path source with
      | error failure => rw [made] at parsed; cases parsed
      | ok tables =>
          rw [made] at parsed
          exact (congrArg ParsedFile.path (Except.ok.inj parsed)).symm

end Reasons

/-! Reports. -/

structure ProjectReport.Covers (report : ProjectReport) (disk : Disk) (settings : Settings)
    (paths : List String) : Prop where
  parsed : report.files.map (·.path) = paths.filter fun path => ¬ Unparsed disk settings path
  failed : report.failed = paths.filter fun path => Unparsed disk settings path
  objects : report.objectCount = (report.files.map (·.tables.objects.length)).sum
  parameters : report.parameterCount = (report.files.map (·.tables.parameters.length)).sum

def ProjectReport.ofPaths (disk : Disk) (settings : Settings) (root project : String)
    (paths : List String) : ProjectReport where
  project := project
  files := paths.filterMap fun path => (parseProjectFile disk settings root path).toOption
  failed := paths.filter fun path => (parseProjectFile disk settings root path).toOption.isNone

theorem parseProject_eq (disk : Disk) (root project : String) (options : WalkOptions)
    (settings : Settings) (reader : PatternReader) :
    parseProject disk root project options settings reader =
      (discover disk root options settings reader).map
        (.ofPaths disk settings root project) := by
  rw [parseProject]
  cases discover disk root options settings reader with
  | error failure => rfl
  | ok paths =>
      simp [bind, Except.bind, Except.map, ProjectReport.ofPaths, List.filterMap_map,
        List.filter_map, Function.comp_def]

theorem covers_ofPaths (disk : Disk) (settings : Settings) (root project : String)
    (paths : List String) :
    (ProjectReport.ofPaths disk settings root project paths).Covers disk settings paths where
  parsed := by
    rw [ProjectReport.ofPaths, List.map_filterMap, ← List.filterMap_eq_filter]
    refine List.filterMap_congr fun path _ => ?_
    rw [Option.guard, decide_not, decide_unparsed root]
    cases parsed : parseProjectFile disk settings root path with
    | error failure => rfl
    | ok file => exact congrArg some (path_of_parseProjectFile parsed)
  failed := List.filter_congr fun path _ => (decide_unparsed root path).symm
  objects := List.length_flatMap
  parameters := List.length_flatMap

/-! Two disks. -/

def Disk.AgreeOn (disk other : Disk) (source : String) : Prop :=
  ∀ path ∈ source :: treePaths source, disk.bytes? path = other.bytes? path

section Agreement

variable {disk other : Disk}

theorem Disk.isFile_eq (path : String) : disk.isFile path = (disk.bytes? path).isSome := by
  rw [Disk.isFile, Disk.bytes?]
  cases disk.node? path with
  | none => rfl
  | some tree => cases tree <;> rfl

theorem Disk.read?_congr {path : String} (same : disk.bytes? path = other.bytes? path) :
    disk.read? path = other.read? path := by
  rw [Disk.read?, Disk.read?, same]

theorem treePath?_congr {source : String}
    (same : ∀ path ∈ treePaths source, disk.bytes? path = other.bytes? path) :
    treePath? disk source = treePath? other source := by
  obtain ⟨added, replaced⟩ := List.forall_mem_cons.mp same
  simp only [treePath?, List.find?_cons, List.find?_nil, Disk.isFile_eq, added,
    List.forall_mem_singleton.mp replaced]

/-- The tables of a file are made from its source and its syntax tree alone. -/
theorem parseProjectFile_congr {source : String} (agree : disk.AgreeOn other source)
    (settings : Settings) (root : String) :
    parseProjectFile disk settings root source = parseProjectFile other settings root source := by
  obtain ⟨sameSource, sameTrees⟩ := List.forall_mem_cons.mp agree
  rw [parseProjectFile, parseProjectFile, ← treePath?_congr sameTrees]
  cases stands : treePath? disk source with
  | none => rfl
  | some path =>
      have sameTree := sameTrees path (List.mem_of_find?_eq_some stands)
      simp only [parseFile, loadTree, Disk.read?_congr sameSource, Disk.read?_congr sameTree]

end Agreement

/-! Two walks. -/

section Walks

variable {disk other : Disk} {root : String} {options : WalkOptions} {settings : Settings}
  {reader : PatternReader} {entries otherEntries : List (String × FileTree)}

/-- The directory below which a walk looks for files. -/
theorem exists_of_discover_eq_ok {paths : List String}
    (found : discover disk root options settings reader = .ok paths) :
    ∃ entries filters, disk.node? root = some (.dir entries) ∧
      Filters.of reader options settings = .ok filters ∧
      paths = (FileTree.selectEntries filters.keepDir filters.keepFile entries).map
        (pathBelow root) := by
  rw [discover, discoverBelow] at found
  split at found
  · next entries atRoot =>
      cases valid : options.validate with
      | error failure => rw [valid] at found; cases found
      | ok _ =>
          cases made : Filters.of reader options settings with
          | error failure => rw [valid, made] at found; cases found
          | ok filters =>
              rw [valid, made] at found
              simp only [bind, Except.bind] at found
              split at found
              · cases found
              · exact ⟨entries, filters, atRoot, rfl, (Except.ok.inj found).symm⟩
  · cases found

/-- What a walk of one disk lists is listed on another disk as well if it holds this file. -/
theorem mem_selectEntries_of_bytes? (sound : disk.Sound) (otherSound : other.Sound)
    (atRoot : disk.node? root = some (.dir entries))
    (otherAtRoot : other.node? root = some (.dir otherEntries)) {keepDir keepFile : String → Bool}
    {place : List String} (member : place ∈ FileTree.selectEntries keepDir keepFile entries)
    {content : ByteArray} (holds : other.bytes? (pathBelow root place) = some content) :
    place ∈ FileTree.selectEntries keepDir keepFile otherEntries := by
  obtain ⟨wellFormed, undotted⟩ := sound.of_node? atRoot
  obtain ⟨otherWellFormed, _⟩ := otherSound.of_node? otherAtRoot
  obtain ⟨_, stands⟩ := FileTree.exists_file_of_mem_selectEntries wellFormed member
  have there := Disk.bytes?_eq_some_iff.mp holds
  have filled : root ≠ "" := ((Disk.isPath_iff root).mp (Disk.isPath_of_node? atRoot)).1.1
  rw [other.node?_pathBelow (wellFormed.isName stands) (undotted.of_at? wellFormed stands).1 filled
    (Disk.isPath_of_node? there), otherAtRoot, Option.bind_some] at there
  -- Whether a place is listed is a matter of its names, once a file stands there.
  rcases List.eq_nil_or_concat place with rfl | ⟨dirs, name, rfl⟩
  · exact absurd member FileTree.nil_notMem_selectEntries
  · rw [List.concat_eq_append] at member there ⊢
    obtain ⟨entered, taken, _⟩ := (FileTree.mem_selectEntries wellFormed dirs name).mp member
    exact (FileTree.mem_selectEntries otherWellFormed dirs name).mpr
      ⟨entered, taken, content, there⟩

def parsedAt (disk : Disk) (settings : Settings) (root : String) (kept : String → Bool)
    (place : List String) : Option ParsedFile :=
  (parseProjectFile disk settings root (pathBelow root place)).toOption.filter (kept ·.path)

theorem filter_files_ofPaths (project : String) (kept : String → Bool)
    (places : List (List String)) :
    (ProjectReport.ofPaths disk settings root project (places.map (pathBelow root))).files.filter
        (kept ·.path) = places.filterMap (parsedAt disk settings root kept) := by
  rw [ProjectReport.ofPaths, List.filterMap_map, List.filter_filterMap]
  rfl

variable {kept : String → Bool}

theorem parsedAt_congr (settings : Settings) (root : String)
    (agree : ∀ path, kept path → disk.AgreeOn other path) :
    parsedAt disk settings root kept = parsedAt other settings root kept := by
  funext place
  by_cases inView : kept (pathBelow root place)
  · rw [parsedAt, parsedAt, parseProjectFile_congr (agree _ inView)]
  · have outOfView (disk : Disk) : parsedAt disk settings root kept place = none := by
      rw [parsedAt, Option.filter_eq_none_iff]
      intro file found
      cases parsed : parseProjectFile disk settings root (pathBelow root place) with
      | error failure => rw [parsed] at found; cases found
      | ok made =>
          rw [parsed] at found
          cases found
          rwa [path_of_parseProjectFile parsed]
    rw [outOfView disk, outOfView other]

theorem exists_bytes_of_parsedAt {place : List String}
    (found : (parsedAt disk settings root kept place).isSome) :
    ∃ content, disk.bytes? (pathBelow root place) = some content := by
  have parsed : (parseProjectFile disk settings root (pathBelow root place)).toOption.isSome := by
    obtain ⟨file, same⟩ := Option.isSome_iff_exists.mp found
    exact Option.isSome_of_mem (Option.mem_filter_iff.mp same).1
  cases holds : disk.bytes? (pathBelow root place) with
  | some content => exact ⟨content, rfl⟩
  | none =>
      have unparsed : Unparsed disk settings (pathBelow root place) :=
        .unreadableSource (by rw [Disk.read?, holds]; rfl)
      have failed := (unparsed_iff root _).mp unparsed
      rw [Option.isNone_iff_eq_none] at failed
      rw [failed] at parsed
      cases parsed

theorem filterMap_eq_filter_isSome {α β : Type} (f : α → Option β) (list : List α) :
    list.filterMap f = (list.filter fun item => (f item).isSome).filterMap f := by
  rw [List.filterMap_filter]
  refine List.filterMap_congr fun item _ => ?_
  cases f item <;> rfl

/-- Walks of two disks come by the files in view in the same order. -/
theorem filter_selectEntries_eq (keepDir keepFile : String → Bool) (inView : List String → Bool)
    (sound : disk.Sound) (otherSound : other.Sound)
    (atRoot : disk.node? root = some (.dir entries))
    (otherAtRoot : other.node? root = some (.dir otherEntries))
    (holds : ∀ place, inView place → ∃ content, disk.bytes? (pathBelow root place) = some content)
    (otherHolds : ∀ place, inView place →
      ∃ content, other.bytes? (pathBelow root place) = some content) :
    (FileTree.selectEntries keepDir keepFile entries).filter inView =
      (FileTree.selectEntries keepDir keepFile otherEntries).filter inView := by
  have sorted : (FileTree.selectEntries keepDir keepFile entries).Pairwise (· < ·) :=
    (sound.of_node? atRoot).1.pairwise_selectEntries
  have otherSorted : (FileTree.selectEntries keepDir keepFile otherEntries).Pairwise (· < ·) :=
    (otherSound.of_node? otherAtRoot).1.pairwise_selectEntries
  apply (sorted.filter inView).eq_of_mem_iff (otherSorted.filter inView)
  intro place
  rw [List.mem_filter, List.mem_filter]
  constructor
  · rintro ⟨member, seen⟩
    obtain ⟨content, there⟩ := otherHolds place seen
    exact ⟨mem_selectEntries_of_bytes? sound otherSound atRoot otherAtRoot member there, seen⟩
  · rintro ⟨member, seen⟩
    obtain ⟨content, there⟩ := holds place seen
    exact ⟨mem_selectEntries_of_bytes? otherSound sound otherAtRoot atRoot member there, seen⟩

end Walks

/-! Projects without directories. -/

def flatEntries (files : List (String × String)) : List (String × FileTree) :=
  files.map fun file => (file.1, .file file.2.toUTF8)

def flatDisk (files : List (String × String)) : Disk :=
  ⟨.dir [("dao", .dir (flatEntries files))], []⟩

theorem sound_flatDisk {files : List (String × String)}
    (ascending : (files.map Prod.fst).Pairwise (· < ·))
    (names : ∀ file ∈ files, FileTree.IsName file.1 ∧ file.1 ≠ "." ∧ file.1 ≠ "..") :
    (flatDisk files).Sound := by
  have wellFormed : (FileTree.dir (flatEntries files)).WellFormed := by
    refine .dir ?_ ?_ ?_
    · exact List.pairwise_map.mpr (List.pairwise_map.mp ascending)
    · exact List.forall_mem_map.mpr fun file member => (names file member).1
    · exact List.forall_mem_map.mpr fun file _ => .file _
  constructor
  · exact FileTree.wellFormed_empty.put ["dao"] (by decide) wellFormed
  · refine .dir (by simp) (List.forall_mem_singleton.mpr (.dir ?_ ?_))
    · exact List.forall_mem_map.mpr fun file member => (names file member).2
    · exact List.forall_mem_map.mpr fun file _ => .file _

theorem entered_flatEntries (keepDir : String → Bool) (files : List (String × String)) :
    FileTree.entered keepDir (flatEntries files) = [] := by
  induction files with
  | nil => rw [flatEntries, List.map_nil, FileTree.entered]
  | cons file files ih =>
      rw [flatEntries, List.map_cons, FileTree.entered]
      exact ih

theorem selectEntries_flatEntries (keepDir keepFile : String → Bool)
    (files : List (String × String)) :
    FileTree.selectEntries keepDir keepFile (flatEntries files) =
      ((files.map Prod.fst).filter keepFile).map ([·]) := by
  induction files with
  | nil => rw [flatEntries, List.map_nil, FileTree.selectEntries]; rfl
  | cons file files ih =>
      rw [flatEntries, List.map_cons, FileTree.selectEntries, ← flatEntries, ih, List.map_cons]
      by_cases kept : keepFile file.1
      · simp only [List.filter_cons, kept, ↓reduceIte, List.map_cons, List.singleton_append]
      · simp only [List.filter_cons, kept, Bool.false_eq_true, ↓reduceIte, List.nil_append]

/-- Without the exclusions of the settings all Solidity files are found. -/
theorem discover_flatDisk (files : List (String × String)) :
    discover (flatDisk files) "dao" { useDefaults := false } {} =
      .ok (((files.map Prod.fst).filter Filters.isSolidity).map ("dao/" ++ ·)) := by
  have atRoot : (flatDisk files).node? "dao" = some (.dir (flatEntries files)) := rfl
  have made : Filters.of Pattern.read? { useDefaults := false } {} = .ok ⟨[], [], [], [], []⟩ := rfl
  have all : Filters.keepFile ⟨[], [], [], [], []⟩ = Filters.isSolidity := by
    funext name
    simp [Filters.keepFile]
  have below : (pathBelow "dao" ∘ ([·])) = ("dao/" ++ ·) := rfl
  rw [discover_eq atRoot rfl made, unlisted?, entered_flatEntries, selectEntries_flatEntries, all]
  simp only [List.map_nil, List.find?_nil, List.map_map, below]

def bareTree : String := "\x7b\"children\":[]\x7d"

def voteFiles : List (String × String) :=
  [("Poll.json", bareTree), ("Poll.sol", ""), ("Vote.sol", "")]

def auditFiles : List (String × String) :=
  [("Audit.json", "?"), ("Audit.sol", ""), ("Poll.json", bareTree), ("Poll.sol", "")]

theorem agreeOn_poll : (flatDisk voteFiles).AgreeOn (flatDisk auditFiles) "dao/Poll.sol" := by
  unfold Disk.AgreeOn
  decide +kernel

/-- A project is parsed whenever its files can be discovered, and each of them is parsed or set
aside for a reason of its own. On another disk that holds the same for some of the files these
files are parsed alike, and stand in the same order, whatever else has changed. -/
theorem parseProject_isolates_files (disk : Disk) (root project : String) (options : WalkOptions)
    (settings : Settings) (reader : PatternReader) :
    match discover disk root options settings reader with
    | .error failure => parseProject disk root project options settings reader = .error failure
    | .ok paths =>
        ∃ report, parseProject disk root project options settings reader = .ok report ∧
          report.Covers disk settings paths ∧
          ∀ (other : Disk) (otherReport : ProjectReport) (kept : String → Bool),
            disk.Sound → other.Sound → (∀ path, kept path → disk.AgreeOn other path) →
            parseProject other root project options settings reader = .ok otherReport →
            report.files.filter (kept ·.path) = otherReport.files.filter (kept ·.path) := by
  rw [parseProject_eq]
  cases found : discover disk root options settings reader with
  | error failure => rfl
  | ok paths =>
      refine ⟨_, rfl, covers_ofPaths disk settings root project paths, ?_⟩
      intro other otherReport kept sound otherSound agree parsed
      rw [parseProject_eq] at parsed
      cases otherFound : discover other root options settings reader with
      | error failure => rw [otherFound] at parsed; cases parsed
      | ok otherPaths =>
          rw [otherFound] at parsed
          cases parsed
          obtain ⟨entries, filters, atRoot, made, rfl⟩ := exists_of_discover_eq_ok found
          obtain ⟨otherEntries, _, otherAtRoot, otherMade, rfl⟩ := exists_of_discover_eq_ok otherFound
          cases made.symm.trans otherMade
          have same := parsedAt_congr settings root agree
          have inOrder := filter_selectEntries_eq filters.keepDir filters.keepFile
            (fun place => (parsedAt disk settings root kept place).isSome)
            sound otherSound atRoot otherAtRoot
            (fun place seen => exists_bytes_of_parsedAt seen)
            (fun place seen => exists_bytes_of_parsedAt (same ▸ seen))
          rw [filter_files_ofPaths, filter_files_ofPaths, ← same, filterMap_eq_filter_isSome,
            inOrder, ← filterMap_eq_filter_isSome]

theorem parseProject_isolates_poll :
    ∃ report otherReport,
      parseProject (flatDisk voteFiles) "dao" "DAO" { useDefaults := false } {} = .ok report ∧
      parseProject (flatDisk auditFiles) "dao" "DAO" { useDefaults := false } {} =
        .ok otherReport ∧
      report.failed = ["dao/Vote.sol"] ∧ otherReport.failed = ["dao/Audit.sol"] ∧
      report.files.map (·.path) = ["dao/Poll.sol"] ∧
      report.files.filter (·.path == "dao/Poll.sol") =
        otherReport.files.filter (·.path == "dao/Poll.sol") := by
  have sound : (flatDisk voteFiles).Sound := sound_flatDisk (by decide) (by decide)
  have otherSound : (flatDisk auditFiles).Sound := sound_flatDisk (by decide) (by decide)
  have agree (path : String) (kept : path == "dao/Poll.sol") :
      (flatDisk voteFiles).AgreeOn (flatDisk auditFiles) path :=
    beq_iff_eq.mp kept ▸ agreeOn_poll
  have isolates := parseProject_isolates_files (flatDisk voteFiles) "dao" "DAO"
    { useDefaults := false } {} Pattern.read?
  have otherIsolates := parseProject_isolates_files (flatDisk auditFiles) "dao" "DAO"
    { useDefaults := false } {} Pattern.read?
  rw [discover_flatDisk] at isolates otherIsolates
  obtain ⟨report, parsed, covers, same⟩ := isolates
  obtain ⟨otherReport, otherParsed, otherCovers, _⟩ := otherIsolates
  refine ⟨report, otherReport, parsed, otherParsed, ?_, ?_, ?_, ?_⟩
  · rw [covers.failed]
    decide +kernel
  · rw [otherCovers.failed]
    decide +kernel
  · rw [covers.parsed]
    decide +kernel
  · exact same _ otherReport _ sound otherSound agree otherParsed

end ContractTables
