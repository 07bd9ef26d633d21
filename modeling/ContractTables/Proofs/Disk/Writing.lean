import ContractTables.Output
import ContractTables.Proofs.Disk.Places

/-!
What making directories and writing files leave alone. Everything stays in its place: a
directory is still one, and a file holds what it held unless it is the one that is
written. So every text leads where it led before.
-/
namespace ContractTables

namespace FileTree

theorem at?_put_self (tree : FileTree) (place : List String) (new : FileTree) :
    (tree.put place new).at? place = some new := by
  induction place generalizing tree with
  | nil => rfl
  | cons name place ih =>
      simp only [put, at?, entry?, lookup_insertEntry_self, Option.bind_some, ih]

/-- What can come of a tree when something is put below it: a file is the same, and a
directory is still one. -/
inductive Remains : FileTree → FileTree → Prop where
  | file (content : ByteArray) : Remains (file content) (file content)
  | dir (entries later : List (String × FileTree)) : Remains (dir entries) (dir later)

theorem Remains.refl (tree : FileTree) : tree.Remains tree := by
  cases tree with
  | file content => exact .file content
  | dir entries => exact .dir entries entries

theorem Remains.isDir_eq {tree later : FileTree} (remains : tree.Remains later) :
    later.isDir = tree.isDir := by
  cases remains <;> rfl

/-- A new entry of a directory changes nothing that stands elsewhere. -/
theorem at?_put_elsewhere {tree found : FileTree} (new : FileTree) {directory place : List String}
    {name : String} {entries : List (String × FileTree)}
    (there : tree.at? directory = some (dir entries)) (stands : tree.at? place = some found)
    (elsewhere : ¬ directory ++ [name] <+: place) :
    ∃ later, (tree.put (directory ++ [name]) new).at? place = some later ∧
      found.Remains later := by
  induction directory generalizing tree place with
  | nil =>
      cases there
      cases place with
      | nil =>
          cases stands
          exact ⟨_, rfl, .dir ..⟩
      | cons step below =>
          have other : step ≠ name := by
            rintro rfl
            exact elsewhere ⟨below, rfl⟩
          refine ⟨found, ?_, .refl found⟩
          rw [List.nil_append, put, at?, entry?, lookup_insertEntry_of_ne other]
          exact stands
  | cons next directory ih =>
      cases tree with
      | file content => exact absurd ((at?_file ..).mp there).1 (List.cons_ne_nil _ _)
      | dir siblings =>
          obtain ⟨inner, held, inside⟩ := Option.bind_eq_some_iff.mp there
          replace held : siblings.lookup next = some inner := held
          cases place with
          | nil =>
              cases stands
              exact ⟨_, rfl, .dir ..⟩
          | cons step below =>
              rw [List.cons_append, put, at?, entry?, held, Option.getD_some]
              by_cases same : step = next
              · subst same
                rw [at?, entry?, held, Option.bind_some] at stands
                rw [lookup_insertEntry_self, Option.bind_some]
                apply ih inside stands
                rintro ⟨rest, longer⟩
                exact elsewhere ⟨rest, congrArg (step :: ·) longer⟩
              · refine ⟨found, ?_, .refl found⟩
                rw [lookup_insertEntry_of_ne same]
                exact stands

end FileTree

namespace Disk

/-- A later disk on which everything is still in its place, and only files in some places can
hold something else. -/
structure Keeps (disk later : Disk) (written : List (List String)) : Prop where
  current : later.current = disk.current
  sorts : ∀ place found, disk.root.at? place = some found →
    ∃ now, later.root.at? place = some now ∧ now.isDir = found.isDir
  contents : ∀ place content, place ∉ written → disk.root.at? place = some (.file content) →
    later.root.at? place = some (.file content)

section Keeping

variable {disk later : Disk} {written : List (List String)}

theorem Keeps.refl (disk : Disk) : disk.Keeps disk [] where
  current := rfl
  sorts := fun _ found there => ⟨found, there, rfl⟩
  contents := fun _ _ _ there => there

theorem Keeps.trans {last : Disk} {more : List (List String)} (first : disk.Keeps later written)
    (second : later.Keeps last more) : disk.Keeps last (written ++ more) where
  current := second.current.trans first.current
  sorts := by
    intro place found there
    obtain ⟨now, stands, same⟩ := first.sorts place found there
    obtain ⟨after, remains, sameAgain⟩ := second.sorts place now stands
    exact ⟨after, remains, sameAgain.trans same⟩
  contents := by
    intro place content untouched there
    rw [List.mem_append, not_or] at untouched
    obtain ⟨notFirst, notSecond⟩ := untouched
    exact second.contents place content notSecond (first.contents place content notFirst there)

theorem Keeps.isDirAt (keeps : disk.Keeps later written) {place : List String}
    (isDir : disk.isDirAt place) : later.isDirAt place := by
  obtain ⟨entries, there⟩ := isDirAt_iff.mp isDir
  obtain ⟨now, stands, same⟩ := keeps.sorts place _ there
  rw [Disk.isDirAt, stands, Option.any_some, same]
  rfl

theorem Keeps.step (keeps : disk.Keeps later written) {place next : List String} {piece : String}
    (step : disk.Step place piece next) : later.Step place piece next := by
  cases step with
  | idle isDir idle => exact .idle (keeps.isDirAt isDir) idle
  | back isDir => exact .back (keeps.isDirAt isDir)
  | down isDir names there =>
      obtain ⟨now, stands, _⟩ := keeps.sorts _ _ there
      exact .down (keeps.isDirAt isDir) names stands

theorem Keeps.foldlM_step? (keeps : disk.Keeps later written) {start place : List String}
    {pieces : List String} (leads : pieces.foldlM disk.step? start = some place) :
    pieces.foldlM later.step? start = some place := by
  induction pieces generalizing start with
  | nil => exact leads
  | cons piece pieces ih =>
      obtain ⟨next, first, rest⟩ := Option.bind_eq_some_iff.mp leads
      rw [List.foldlM_cons, step?_eq_some_iff.mpr (keeps.step (step?_eq_some_iff.mp first))]
      exact ih rest

theorem Keeps.start (keeps : disk.Keeps later written) (path : Path) :
    later.start path = disk.start path := by
  rw [Disk.start, Disk.start, keeps.current]

/-- A text leads where it led before. -/
theorem Keeps.place? (keeps : disk.Keeps later written) {text : String} {place : List String}
    (leads : disk.place? text = some place) : later.place? text = some place := by
  have isPath := isPath_of_place? leads
  rw [place?_eq _ isPath] at leads ⊢
  rw [keeps.start]
  exact keeps.foldlM_step? leads

/-! Putting something at a place. -/

theorem keeps_put (new : FileTree) {directory : List String} {name : String}
    (isDir : disk.isDirAt directory) (notDir : disk.isDirAt (directory ++ [name]) = false)
    (fits : ∀ content, disk.root.at? (directory ++ [name]) = some (.file content) → ¬ new.isDir) :
    disk.Keeps { disk with root := disk.root.put (directory ++ [name]) new }
      [directory ++ [name]] := by
  obtain ⟨entries, there⟩ := isDirAt_iff.mp isDir
  -- Nothing but a file can be at the place itself, and nothing is below it.
  have atPlace {place : List String} {found : FileTree} (inside : directory ++ [name] <+: place)
      (stands : disk.root.at? place = some found) :
      place = directory ++ [name] ∧ ∃ content, found = .file content := by
    obtain ⟨below, rfl⟩ := inside
    cases below with
    | nil =>
        rw [List.append_nil] at stands ⊢
        cases found with
        | file content => exact ⟨rfl, content, rfl⟩
        | dir inner => exact absurd (isDirAt_iff.mpr ⟨inner, stands⟩) (by simp [notDir])
    | cons step below =>
        rw [disk.at?_append_of_not_isDirAt notDir] at stands
        cases stands
  refine ⟨rfl, ?_, ?_⟩
  · intro place found stands
    by_cases inside : directory ++ [name] <+: place
    · obtain ⟨rfl, content, rfl⟩ := atPlace inside stands
      refine ⟨new, FileTree.at?_put_self .., ?_⟩
      simpa [FileTree.isDir] using fits content stands
    · obtain ⟨now, after, remains⟩ := FileTree.at?_put_elsewhere new there stands inside
      exact ⟨now, after, remains.isDir_eq⟩
  · intro place content untouched stands
    by_cases inside : directory ++ [name] <+: place
    · exact absurd (List.mem_singleton.mpr (atPlace inside stands).1) untouched
    · obtain ⟨now, after, remains⟩ := FileTree.at?_put_elsewhere new there stands inside
      cases remains
      exact after

/-- The place of an entry is one step below a directory. -/
theorem exists_of_entryPlace? {path : Path} {place : List String}
    (found : disk.entryPlace? path = some place) :
    ∃ directory name pieces, place = directory ++ [name] ∧ disk.isDirAt directory ∧
      isPath path.text ∧ isNewName name ∧
      (path.pieces.reverse.dropWhile (·.isEmpty)).reverse = pieces ++ [name] ∧
      pieces.foldlM disk.step? (disk.start path) = some directory := by
  obtain ⟨name, last, rest⟩ := Option.bind_eq_some_iff.mp found
  obtain ⟨directory, above, entry⟩ := Option.bind_eq_some_iff.mp rest
  split at entry
  · next fits =>
      cases entry
      simp only [Bool.and_eq_true] at fits
      obtain ⟨⟨isPath, isDir⟩, isNew⟩ := fits
      obtain ⟨pieces, same⟩ := List.getLast?_eq_some_iff.mp last
      rw [same, List.dropLast_concat] at above
      exact ⟨directory, name, pieces, rfl, isDir, isPath, isNew, same, above⟩
  · cases entry

/-- A new directory comes where nothing was. -/
theorem keeps_makeDir? {path : Path} (made : disk.makeDir? path = some later) :
    disk.Keeps later [] := by
  obtain ⟨place, found, rest⟩ := Option.bind_eq_some_iff.mp made
  obtain ⟨directory, name, _, rfl, isDir, _⟩ := exists_of_entryPlace? found
  split at rest
  · cases rest
  · next free =>
      cases rest
      have keeps := keeps_put (.dir []) isDir (by rw [isDirAt, free]; rfl)
        fun content there => by cases free.symm.trans there
      refine ⟨keeps.current, keeps.sorts, ?_⟩
      intro place content _ there
      refine keeps.contents place content ?_ there
      rintro member
      cases List.mem_singleton.mp member
      cases free.symm.trans there

theorem keeps_foldlM {α : Type} {make : Disk → α → Option Disk}
    (keeps : ∀ disk item later, make disk item = some later → disk.Keeps later [])
    {items : List α} (made : items.foldlM make disk = some later) : disk.Keeps later [] := by
  induction items generalizing disk with
  | nil =>
      cases made
      exact .refl _
  | cons item items ih =>
      obtain ⟨next, first, rest⟩ := Option.bind_eq_some_iff.mp made
      exact (keeps disk item next first).trans (ih rest)

theorem keeps_makeDirs? {text : String} (made : disk.makeDirs? text = some later) :
    disk.Keeps later [] := by
  refine keeps_foldlM ?_ made
  intro disk path later made
  cases new : disk.makeDir? path with
  | some next =>
      rw [new] at made
      cases made
      exact keeps_makeDir? new
  | none =>
      rw [new] at made
      replace made : (if disk.isDir path.text then some disk else none) = some later := made
      split at made
      · cases made
        exact .refl disk
      · cases made

/-- A text that is written to leads to the file that is made. -/
theorem keeps_write? {text content : String} (wrote : disk.write? text content = some later) :
    ∃ place, disk.Keeps later [place] ∧ later.place? text = some place ∧
      later.root.at? place = some (.file content.toUTF8) := by
  obtain ⟨place, found, rest⟩ := Option.bind_eq_some_iff.mp wrote
  obtain ⟨directory, name, pieces, rfl, isDir, isPath, isNew, steps, leads⟩ :=
    exists_of_entryPlace? found
  split at rest
  · cases rest
  · next fits =>
      cases rest
      simp only [Bool.or_eq_true, decide_eq_true_eq, not_or, Bool.not_eq_true] at fits
      obtain ⟨noSlash, notDir⟩ := fits
      have keeps := keeps_put (.file content.toUTF8) isDir notDir
        fun _ _ => Bool.false_ne_true
      refine ⟨_, keeps, ?_, FileTree.at?_put_self ..⟩
      -- Without a slash at the end all the pieces are steps, and the last one is the name.
      have pieces_eq : (Path.parse text).pieces = pieces ++ [name] := by
        rw [← List.reverse_reverse (Path.parse text).pieces, ← steps]
        congr 1
        cases back : (Path.parse text).pieces.reverse with
        | nil => rfl
        | cons last rest =>
            have filled : last ≠ "" := by
              rintro rfl
              exact noSlash (List.head?_reverse ▸ congrArg List.head? back)
            rw [List.dropWhile_cons_of_neg (by simpa using filled)]
      have named : ¬ Path.isIdle name ∧ name ≠ ".." := by
        simp only [isNewName, Bool.and_eq_true] at isNew
        simpa using isNew.1
      rw [Path.text_parse] at isPath
      rw [place?_eq _ isPath, pieces_eq, foldlM_step?_concat, keeps.start,
        keeps.foldlM_step? leads, Option.bind_some]
      exact step?_eq_some_iff.mpr (.down (keeps.isDirAt isDir) named (FileTree.at?_put_self ..))

end Keeping
end Disk

namespace OutputStep

def Left (steps : List OutputStep) (later : Disk) (place : List String) : Prop :=
  ∃ path content, .write path content ∈ steps ∧ later.place? path = some place ∧
    later.root.at? place = some (.file content.toUTF8)

theorem keeps_carryOut? {disk later : Disk} {step : OutputStep}
    (carried : step.carryOut? disk = some later) :
    ∃ written, disk.Keeps later written ∧ ∀ place ∈ written, Left [step] later place := by
  cases step with
  | makeDirs path => exact ⟨[], Disk.keeps_makeDirs? carried, by simp⟩
  | write path content =>
      obtain ⟨place, keeps, leads, holds⟩ := Disk.keeps_write? carried
      refine ⟨[place], keeps, ?_⟩
      rintro _ member
      cases List.mem_singleton.mp member
      exact ⟨path, content, List.mem_cons_self, leads, holds⟩

/-- Steps leave everything in its place, and alter only files that they write. -/
theorem keeps_carryOutAll (steps : List OutputStep) (disk : Disk) :
    ∃ written, disk.Keeps (carryOutAll disk steps).1 written ∧
      ∀ place ∈ written, Left steps (carryOutAll disk steps).1 place := by
  induction steps generalizing disk with
  | nil => exact ⟨[], .refl disk, by simp⟩
  | cons step rest ih =>
      rw [carryOutAll]
      cases carried : step.carryOut? disk with
      | none => exact ⟨[], .refl disk, by simp⟩
      | some next =>
          obtain ⟨written, first, left⟩ := keeps_carryOut? carried
          obtain ⟨more, second, leftLater⟩ := ih next
          have later {place : List String} (member : place ∈ more) :
              Left (step :: rest) (carryOutAll next rest).1 place := by
            obtain ⟨path, content, among, leads, holds⟩ := leftLater place member
            exact ⟨path, content, List.mem_cons_of_mem _ among, leads, holds⟩
          refine ⟨written ++ more, first.trans second, ?_⟩
          intro place member
          -- A later step may write to the same place again.
          by_cases again : place ∈ more
          · exact later again
          · have early := (List.mem_append.mp member).resolve_right again
            obtain ⟨path, content, among, leads, holds⟩ := left place early
            cases List.mem_singleton.mp among
            exact ⟨path, content, List.mem_cons_self, second.place? leads,
              second.contents place _ again holds⟩

def Replaced (steps : List OutputStep) (disk after : Disk) (input path : String) : Prop :=
  ∃ content place, .write path content ∈ steps ∧ disk.place? input = some place ∧
    after.place? path = some place ∧ after.bytes? input = some content.toUTF8

theorem bytes?_carryOutAll {disk : Disk} (steps : List OutputStep) {input : String}
    {content : ByteArray} (holds : disk.bytes? input = some content) :
    (carryOutAll disk steps).1.bytes? input = some content ∨
      ∃ path, Replaced steps disk (carryOutAll disk steps).1 input path := by
  obtain ⟨place, leads, stands⟩ := Option.bind_eq_some_iff.mp (Disk.bytes?_eq_some_iff.mp holds)
  obtain ⟨written, keeps, left⟩ := keeps_carryOutAll steps disk
  have bytes_eq {now : ByteArray}
      (there : (carryOutAll disk steps).1.root.at? place = some (.file now)) :
      (carryOutAll disk steps).1.bytes? input = some now := by
    rw [Disk.bytes?_eq_some_iff, Disk.node?, keeps.place? leads]
    exact there
  by_cases touched : place ∈ written
  · obtain ⟨path, text, among, other, there⟩ := left place touched
    exact .inr ⟨path, text, place, among, leads, other, bytes_eq there⟩
  · exact .inl (bytes_eq (keeps.contents place content touched stands))

/-- A file and the path that is written to in its stead have the same name. -/
theorem Replaced.same_name {steps : List OutputStep} {disk : Disk} {input path : String}
    {content : ByteArray}
    (replaced : Replaced steps disk (carryOutAll disk steps).1 input path)
    (current : disk.isDirAt disk.current) (holds : disk.bytes? input = some content) :
    ∃ name, (Path.parse input).name? = some name ∧ (Path.parse path).name? = some name := by
  obtain ⟨text, place, _, leads, other, now⟩ := replaced
  obtain ⟨_, keeps, _⟩ := keeps_carryOutAll steps disk
  obtain ⟨_, first, stands⟩ := Option.bind_eq_some_iff.mp (Disk.bytes?_eq_some_iff.mp holds)
  obtain ⟨_, second, there⟩ := Option.bind_eq_some_iff.mp (Disk.bytes?_eq_some_iff.mp now)
  cases leads.symm.trans first
  cases (keeps.place? leads).symm.trans second
  have currentAfter := keeps.isDirAt current
  rw [← keeps.current] at currentAfter
  obtain ⟨name, named, last⟩ := Disk.exists_name_of_file current leads stands
  obtain ⟨otherName, otherNamed, otherLast⟩ := Disk.exists_name_of_file currentAfter other there
  cases last.symm.trans otherLast
  exact ⟨name, named, otherNamed⟩

end OutputStep
end ContractTables
