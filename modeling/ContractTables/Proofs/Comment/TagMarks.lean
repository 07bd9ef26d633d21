import ContractTables.Comment.Tag
import ContractTables.Proofs.Path.Pieces
import ContractTables.Proofs.Text.Lines
import ContractTables.Proofs.Text.Slices
import ContractTables.Proofs.Text.Trim

/-!
Tags by their places in a comment. One scan finds where each tag begins and ends, and the
text of a section is the slice from the end of its tag to the beginning of the next one.
Each of these slices is in range, and the sections are those of the lines.
-/
namespace ContractTables

open Text

namespace Comment

theorem eq_of_tagAt? {line tag after : List Char} (found : tagAt? line = some (tag, after)) :
    line = '@' :: (tag ++ after) := by
  unfold tagAt? at found
  split at found
  · next rest =>
      split at found
      · cases found
      · next name _ =>
          obtain ⟨rfl, rfl⟩ : rest.takeWhile isTagLetter = tag ∧
              rest.dropWhile isTagLetter = after := by simpa using found
          rw [List.takeWhile_append_dropWhile]
  · cases found

/-- The letters of a tag end with its line. -/
theorem tagLetters_append_below (text : List Char) (rest : List Line) :
    (text ++ below rest).takeWhile isTagLetter = text.takeWhile isTagLetter ∧
      (text ++ below rest).dropWhile isTagLetter = text.dropWhile isTagLetter ++ below rest := by
  induction text with
  | nil =>
      cases rest with
      | nil => exact ⟨rfl, rfl⟩
      | cons line rest => exact ⟨rfl, rfl⟩
  | cons c text ih =>
      by_cases letter : isTagLetter c
      · simp [letter, ih.1, ih.2]
      · simp [letter]

theorem tagAt?_append_below (line : Line) (rest : List Line) :
    tagAt? (line ++ below rest) =
      (tagAt? line).map fun (tag, after) => (tag, after ++ below rest) := by
  cases line with
  | nil => cases rest <;> rfl
  | cons c text =>
      by_cases mark : c = '@'
      · subst mark
        obtain ⟨taken, dropped⟩ := tagLetters_append_below text rest
        simp only [List.cons_append, tagAt?, taken, dropped]
        cases text.takeWhile isTagLetter <;> rfl
      · simp [tagAt?, mark]

/-- The lines in no section are the first ones. -/
theorem sections_prefix (lines : List Line) : (sections lines).1 <+: lines := by
  induction lines with
  | nil => exact List.prefix_refl []
  | cons line rest ih =>
      rw [sections]
      cases tagAt? line with
      | none => exact List.cons_prefix_cons.mpr ⟨rfl, ih⟩
      | some found => exact List.nil_prefix

end Comment

namespace Checked

/-- A tag at the start of a line, from byte `first` up to byte `last`: the whole of it and
its name, as the groups of a pattern. -/
structure TagMark where
  first : Nat
  last : Nat
  groups : List (List Char)

def tagMark? (place : Nat) (text : List Char) : Option TagMark :=
  (Comment.tagAt? text).map fun (tag, _) =>
    ⟨place, place + byteLength ('@' :: tag), ['@' :: tag, tag]⟩

def tagMarks (lineStart : Bool) (place : Nat) : List Char → List TagMark
  | [] => []
  | c :: rest =>
      let later := tagMarks (c = '\n') (place + c.utf8Size) rest
      if lineStart then (tagMark? place (c :: rest)).toList ++ later else later

def nextPlace (text : List Char) (marks : List TagMark) : Nat :=
  (marks.head?.map TagMark.first).getD (byteLength text)

def withoutBreaks (text : List Char) : List Char := text.map fun c => if c = '\n' then ' ' else c

def sectionsAt (comment : List Char) : List TagMark → Except OutOfRange (List Comment.Section)
  | [] => .ok []
  | mark :: later => do
      let tag ← item mark.groups 1
      let text ← slice comment mark.last (nextPlace comment later)
      let others ← sectionsAt comment later
      .ok (⟨String.ofList tag, String.ofList (trim (withoutBreaks text))⟩ :: others)

def sections (comment : List Char) : Except OutOfRange (List Comment.Section) :=
  sectionsAt comment (tagMarks true 0 comment)

theorem tagMark?_append_below (place : Nat) (line : Line) (rest : List Line) :
    tagMark? place (line ++ below rest) = tagMark? place line := by
  rw [tagMark?, tagMark?, Comment.tagAt?_append_below, Option.map_map]
  rfl

theorem tagMarks_inside (place : Nat) {line : Line} (single : '\n' ∉ line) (text : List Char) :
    tagMarks false place (line ++ text) = tagMarks false (place + byteLength line) text := by
  induction line generalizing place with
  | nil => simp
  | cons c line ih =>
      rw [List.mem_cons, not_or] at single
      have same : decide (c = '\n') = false := decide_eq_false (Ne.symm single.1)
      rw [List.cons_append, tagMarks, if_neg Bool.false_ne_true, same, ih _ single.2,
        byteLength_cons, Nat.add_assoc]

theorem tagMarks_below_cons (place : Nat) (line : Line) (rest : List Line) :
    tagMarks false place (below (line :: rest)) =
      tagMarks true (place + 1) (line ++ below rest) := rfl

/-- A line has the tag with which it begins, and no other. -/
theorem tagMarks_line (place : Nat) {line : Line} (single : '\n' ∉ line) (rest : List Line) :
    tagMarks true place (line ++ below rest) =
      (tagMark? place line).toList ++ tagMarks false (place + byteLength line) (below rest) := by
  rw [← tagMarks_inside place single, ← tagMark?_append_below place line rest]
  cases line ++ below rest <;> rfl

theorem withoutBreaks_append (front back : List Char) :
    withoutBreaks (front ++ back) = withoutBreaks front ++ withoutBreaks back :=
  List.map_append

theorem withoutBreaks_eq_self {text : List Char} (single : '\n' ∉ text) :
    withoutBreaks text = text := by
  have kept : ∀ c ∈ text, (if c = '\n' then ' ' else c) = c := by
    intro c inside
    refine if_neg ?_
    rintro rfl
    exact single inside
  exact (List.map_congr_left kept).trans (List.map_id' text)

theorem withoutBreaks_unlines {lines : List Line} (single : ∀ line ∈ lines, '\n' ∉ line) :
    withoutBreaks (unlines lines) = [' '].intercalate lines := by
  induction lines with
  | nil => rfl
  | cons line rest ih =>
      obtain ⟨first, others⟩ := List.forall_mem_cons.mp single
      cases rest with
      | nil => simpa [unlines] using withoutBreaks_eq_self first
      | cons next rest =>
          rw [unlines_cons line (List.cons_ne_nil next rest), List.intercalate_cons_cons,
            withoutBreaks_append, withoutBreaks_eq_self first, ← ih others, List.append_assoc]
          rfl

/-- A line break at the end is trimmed away with the blank it becomes. -/
theorem trim_withoutBreaks_unlines {lines : List Line} (single : ∀ line ∈ lines, '\n' ∉ line)
    {gap : List Char} (gapEnd : gap = [] ∨ gap = ['\n']) :
    trim (withoutBreaks (unlines lines ++ gap)) = trim ([' '].intercalate lines) := by
  rw [withoutBreaks_append, withoutBreaks_unlines single]
  rcases gapEnd with rfl | rfl
  · rw [withoutBreaks, List.map_nil, List.append_nil]
  · exact trim_concat (by decide) _

/-- What a scan finds in the lines below a text: their sections, and a first tag at the end
of the lines that stand in no section. -/
structure Scanned (comment before : List Char) (rest : List Line) (marks : List TagMark) :
    Prop where
  sections : sectionsAt comment marks = .ok (Comment.sections rest).2
  next : ∃ gap after, (gap = [] ∨ gap = ['\n']) ∧
    comment = before ++ below (Comment.sections rest).1 ++ gap ++ after ∧
    byteLength (before ++ below (Comment.sections rest).1 ++ gap) = nextPlace comment marks

section Line

variable {comment front : List Char} {line : Line} {rest : List Line} {marks : List TagMark}
  (scanned : Scanned comment (front ++ line) rest marks)
  (single : ∀ each ∈ line :: rest, '\n' ∉ each)

include scanned

/-- The section of a tag runs from behind the tag to the next one. -/
theorem Scanned.slice_of_tagAt? {tag after : List Char}
    (found : Comment.tagAt? line = some (tag, after)) :
    ∃ gap, (gap = [] ∨ gap = ['\n']) ∧
      slice comment (byteLength front + byteLength ('@' :: tag)) (nextPlace comment marks) =
        .ok (unlines (after :: (Comment.sections rest).1) ++ gap) := by
  obtain ⟨gap, behind, gapEnd, whole, place⟩ := scanned.next
  have cut : line = '@' :: tag ++ after := Comment.eq_of_tagAt? found
  refine ⟨gap, gapEnd, slice_eq_ok_iff.mpr
    ⟨front ++ '@' :: tag, behind, ?_, byteLength_append _ _, ?_⟩⟩
  · rw [whole, cut, unlines_eq_append_below]
    simp only [List.append_assoc]
  · rw [← place, cut, unlines_eq_append_below]
    simp only [List.append_assoc]

include single

theorem Scanned.sectionsAt_line :
    sectionsAt comment ((tagMark? (byteLength front) line).toList ++ marks) =
      .ok (Comment.sections (line :: rest)).2 := by
  cases found : Comment.tagAt? line with
  | none =>
      rw [tagMark?, found, Comment.sections, found]
      exact scanned.sections
  | some cut =>
      obtain ⟨tag, after⟩ := cut
      obtain ⟨gap, gapEnd, sliced⟩ := scanned.slice_of_tagAt? found
      have body : ∀ each ∈ after :: (Comment.sections rest).1, '\n' ∉ each := by
        refine List.forall_mem_cons.mpr ⟨fun broken => ?_, fun each member => ?_⟩
        · apply single line List.mem_cons_self
          rw [Comment.eq_of_tagAt? found]
          exact List.mem_cons_of_mem '@' (List.mem_append_right tag broken)
        · exact single each
            (List.mem_cons_of_mem line ((Comment.sections_prefix rest).subset member))
      have named : item ['@' :: tag, tag] 1 = .ok tag := rfl
      rw [tagMark?, found, Option.map_some, Option.toList_some, List.singleton_append, sectionsAt,
        Comment.sections, found]
      simp only [named, sliced, scanned.sections, bind, Except.bind,
        trim_withoutBreaks_unlines body gapEnd]
      rfl

end Line

theorem scanned_below {comment before : List Char} {rest : List Line}
    (single : ∀ line ∈ rest, '\n' ∉ line) (whole : comment = before ++ below rest) :
    Scanned comment before rest (tagMarks false (byteLength before) (below rest)) := by
  induction rest generalizing before with
  | nil =>
      refine ⟨rfl, [], [], .inl rfl, ?_, ?_⟩
      · simp [whole, Comment.sections]
      · simp [whole, Comment.sections, nextPlace, tagMarks]
  | cons line rest ih =>
      obtain ⟨first, others⟩ := List.forall_mem_cons.mp single
      have split : comment = before ++ ['\n'] ++ line ++ below rest := by
        rw [whole, below_cons]
        simp
      have scanned := ih others split
      have place : byteLength (before ++ ['\n']) = byteLength before + 1 := byteLength_append _ _
      rw [tagMarks_below_cons, ← place, tagMarks_line _ first, ← byteLength_append]
      refine ⟨scanned.sectionsAt_line single, ?_⟩
      rw [Comment.sections, tagMark?]
      cases Comment.tagAt? line with
      | some cut =>
          -- The line itself begins the first section, behind a line break.
          refine ⟨['\n'], line ++ below rest, .inr rfl, ?_, ?_⟩
          · rw [split, below_nil]
            simp
          · rw [below_nil, List.append_nil]
            rfl
      | none =>
          have longer : before ++ ['\n'] ++ line ++ below (Comment.sections rest).1 =
              before ++ below (line :: (Comment.sections rest).1) := by
            rw [below_cons]
            simp
          have next := scanned.next
          rw [longer] at next
          exact next

/-- Each slice between two tags is in range, and the texts are the ones of the sections. -/
theorem sections_eq (comment : List Char) :
    sections comment = .ok (Comment.sections (comment.splitOn '\n')).2 := by
  have single : ∀ line ∈ comment.splitOn '\n', '\n' ∉ line :=
    fun line member => notMem_of_mem_splitOn member
  have joined := unlines_splitOn comment
  obtain ⟨line, rest, lines⟩ := List.exists_cons_of_ne_nil (List.splitOn_ne_nil '\n' comment)
  rw [lines] at single joined ⊢
  obtain ⟨first, others⟩ := List.forall_mem_cons.mp single
  rw [unlines_eq_append_below] at joined
  have scanned : Scanned comment ([] ++ line) rest
      (tagMarks false (byteLength ([] ++ line)) (below rest)) :=
    scanned_below others joined.symm
  have found := scanned.sectionsAt_line single
  rw [byteLength_nil, List.nil_append] at found
  rw [sections, ← found]
  congr 1
  rw [← joined, tagMarks_line 0 first, Nat.zero_add]

end Checked
end ContractTables
