import Mathlib.Data.List.Forall2
import Mathlib.Data.List.Infix
import Mathlib.Data.List.NodupEquivFin
import ContractTables.Proofs.Comment.Block

/-!
What a comment takes from its region. Cleaning picks pieces out of source lines: each text is
a piece of one line, no line gives two of them, and they stand in the order of their lines.
Nothing is picked unless the region ends in a line comment or in a closing mark.
-/
namespace ContractTables.Comment

open Text

/-- The texts are pieces of different lines, in the order of these lines. -/
def Excerpt (texts lines : List Line) : Prop := List.SublistForall₂ (· <:+: ·) texts lines

namespace Excerpt

theorem of_sublist {texts lines : List Line} (among : texts.Sublist lines) :
    Excerpt texts lines :=
  among.sublistForall₂

theorem trans {texts pieces lines : List Line} (inner : Excerpt texts pieces)
    (outer : Excerpt pieces lines) : Excerpt texts lines :=
  List.SublistForall₂.is_trans.trans texts pieces lines inner outer

theorem of_map {f : Line → Line} (piece : ∀ line, f line <:+: line) (lines : List Line) :
    Excerpt (lines.map f) lines := by
  induction lines with
  | nil => exact .nil
  | cons line rest ih => exact .cons (piece line) ih

theorem of_ended (mark : List Char) (lines : List Line) : Excerpt lines (ended mark lines) := by
  induction lines with
  | nil => exact .nil
  | cons line rest ih =>
      cases rest with
      | nil => exact .cons (List.prefix_append line mark).isInfix .nil
      | cons next rest => exact .cons (List.infix_refl line) ih

/-- The lines that the texts come from have places that increase with those of the texts. -/
theorem exists_places {texts lines : List Line} (excerpt : Excerpt texts lines) :
    ∃ place : Nat → Nat, StrictMono place ∧
      ∀ k text, texts[k]? = some text →
        ∃ line, lines[place k]? = some line ∧ text <:+: line := by
  obtain ⟨sources, pieces, among⟩ := List.sublistForall₂_iff.mp excerpt
  obtain ⟨place, same⟩ := List.sublist_iff_exists_orderEmbedding_getElem?_eq.mp among
  refine ⟨place, place.strictMono, ?_⟩
  intro k text found
  obtain ⟨within, rfl⟩ := List.getElem?_eq_some_iff.mp found
  have also : k < sources.length := pieces.length_eq ▸ within
  refine ⟨sources[k], ?_, pieces.get within also⟩
  rw [← same, List.getElem?_eq_getElem also]

end Excerpt

/-! Texts and their lines. -/

theorem excerpt_nonblank (lines : List Line) : Excerpt (nonblank lines) lines :=
  (Excerpt.of_sublist List.filter_sublist).trans (Excerpt.of_map trim_isInfix lines)

/-- The lines of a block are those of the region from its opening mark on. -/
theorem excerpt_block {lines : List Line} (single : ∀ line ∈ lines, '\n' ∉ line)
    {interior : List Char} (taken : blockInterior? (unlines (nonblank lines)) = some interior) :
    Excerpt (interior.splitOn '\n') (nonblank lines) := by
  obtain ⟨above, front, first, below, rows, inner, _⟩ :=
    exists_lines_of_blockInterior? single taken
  -- The first line of the block is what is left of the line in which it is opened.
  have opened : Excerpt (first :: below) ((front ++ "/**".toList ++ first) :: below) :=
    .cons (List.suffix_append _ first).isInfix (Excerpt.of_sublist (List.Sublist.refl below))
  have under : Excerpt ((front ++ "/**".toList ++ first) :: below)
      (above ++ (front ++ "/**".toList ++ first) :: below) :=
    Excerpt.of_sublist (List.sublist_append_right above _)
  rw [rows, inner]
  exact (opened.trans under).trans (Excerpt.of_ended _ _)

def lastRun (lines : List Line) : List Line := (lines.reverse.takeWhile isLineComment).reverse

theorem lastRun_sublist (lines : List Line) : (lastRun lines).Sublist lines := by
  have upward := List.takeWhile_sublist (l := lines.reverse) isLineComment
  simpa [lastRun] using upward.reverse

/-- Cleaning reads the lines of a block, or else a run of line comments. -/
theorem clean_cases (lines : List Line) :
    (∃ interior, blockInterior? (unlines (nonblank lines)) = some interior ∧
      clean lines = ((interior.splitOn '\n').map dropBullet).filter (!·.isEmpty)) ∨
    clean lines = ((lastRun (nonblank lines)).map dropSlashes).filter (!·.isEmpty) := by
  cases taken : blockInterior? (unlines (nonblank lines)) with
  | some interior => exact .inl ⟨interior, rfl, clean_of_blockInterior? taken⟩
  | none =>
      refine .inr ?_
      rw [clean, taken]
      rfl

/-- What a comment form does to a line: it takes marks and blanks off its ends. -/
structure Strips (strip : Line → Line) : Prop where
  piece : ∀ line, strip line <:+: line
  trimmed : ∀ line, trim (strip line) = strip line

theorem strips_dropBullet : Strips dropBullet where
  piece _ := (trim_isInfix _).trans
    ((List.dropWhile_suffix _).trans (List.dropWhile_suffix isBlank)).isInfix
  trimmed _ := trim_trim _

theorem strips_dropSlashes : Strips dropSlashes where
  piece _ := (trim_isInfix _).trans (List.dropWhile_suffix _).isInfix
  trimmed _ := trim_trim _

/-- In both forms lines of the region are stripped one by one, and empty ones left out. -/
theorem exists_stripped {lines : List Line} (single : ∀ line ∈ lines, '\n' ∉ line) :
    ∃ read strip, Excerpt read (nonblank lines) ∧ Strips strip ∧
      clean lines = (read.map strip).filter (!·.isEmpty) := by
  rcases clean_cases lines with ⟨interior, taken, cleaned⟩ | cleaned
  · exact ⟨_, dropBullet, excerpt_block single taken, strips_dropBullet, cleaned⟩
  · have run := Excerpt.of_sublist (lastRun_sublist (nonblank lines))
    exact ⟨_, dropSlashes, run, strips_dropSlashes, cleaned⟩

theorem excerpt_clean {lines : List Line} (single : ∀ line ∈ lines, '\n' ∉ line) :
    Excerpt (clean lines) lines := by
  obtain ⟨read, strip, among, strips, cleaned⟩ := exists_stripped single
  have filled : Excerpt ((read.map strip).filter (!·.isEmpty)) (read.map strip) :=
    Excerpt.of_sublist List.filter_sublist
  have stripped : Excerpt (read.map strip) read := Excerpt.of_map strips.piece read
  rw [cleaned]
  exact ((filled.trans stripped).trans among).trans (excerpt_nonblank lines)

theorem trimmed_of_mem_clean {lines : List Line} (single : ∀ line ∈ lines, '\n' ∉ line)
    {text : Line} (member : text ∈ clean lines) : text ≠ [] ∧ trim text = text := by
  obtain ⟨read, strip, _, strips, cleaned⟩ := exists_stripped single
  rw [cleaned] at member
  obtain ⟨among, filled⟩ := List.mem_filter.mp member
  obtain ⟨line, _, rfl⟩ := List.mem_map.mp among
  exact ⟨by simpa using filled, strips.trimmed line⟩

/-! The end of the region. -/

theorem getLast?_ended (mark : List Char) (lines : List Line) :
    (ended mark lines).getLast? = lines.getLast?.map (· ++ mark) := by
  induction lines with
  | nil => rfl
  | cons line rest ih =>
      cases rest with
      | nil => rfl
      | cons next rest =>
          have some : next :: rest ≠ [] := List.cons_ne_nil next rest
          rw [ended, List.getLast?_cons_of_ne_nil (ended_ne_nil mark some), ih,
            List.getLast?_cons_of_ne_nil some]

theorem closed_of_block {lines : List Line} (single : ∀ line ∈ lines, '\n' ∉ line)
    {interior : List Char} (taken : blockInterior? (unlines (nonblank lines)) = some interior) :
    ∃ last, (nonblank lines).getLast? = some last ∧ "*/".toList <:+ last := by
  obtain ⟨above, front, first, below, rows, _⟩ := exists_lines_of_blockInterior? single taken
  have filled : above ++ (front ++ "/**".toList ++ first) :: below ≠ [] := by simp
  rw [rows, getLast?_ended, List.getLast?_eq_some_getLast filled]
  exact ⟨_, rfl, List.suffix_append _ _⟩

theorem slashed_of_lastRun {lines : List Line} (some : lastRun lines ≠ []) :
    ∃ last, lines.getLast? = .some last ∧ "//".toList <+: last := by
  cases upward : lines.reverse with
  | nil => exact absurd (by rw [lastRun, upward]; rfl) some
  | cons last rest =>
      have ends : lines.getLast? = .some last := by rw [← List.head?_reverse, upward]; rfl
      -- The run is read from below, so it is empty unless the last line is a comment.
      by_cases comment : isLineComment last
      · exact ⟨last, ends, startsWith_iff.mp comment⟩
      · have none : lastRun lines = [] := by
          rw [lastRun, upward, List.takeWhile_cons_of_neg comment]
          rfl
        exact absurd none some

/-- The texts of a comment are not empty and have no blanks at their ends. They are pieces of
the lines of its region, at places that increase from text to text. If there are any, the last
line of the region that is not blank begins as a line comment or ends in a closing mark. -/
theorem texts_taken_in_order {lines : List Line} (single : ∀ line ∈ lines, '\n' ∉ line) :
    (∀ text ∈ clean lines, text ≠ [] ∧ (∀ c ∈ text.head?, isBlank c = false) ∧
      ∀ c ∈ text.getLast?, isBlank c = false) ∧
    (∃ place : Nat → Nat, StrictMono place ∧
      ∀ k text, (clean lines)[k]? = some text →
        ∃ line, lines[place k]? = some line ∧ text <:+: line) ∧
    (clean lines ≠ [] → ∃ last, (nonblank lines).getLast? = some last ∧
      ("//".toList <+: last ∨ "*/".toList <:+ last)) := by
  refine ⟨?_, (excerpt_clean single).exists_places, ?_⟩
  · intro text member
    obtain ⟨filled, trimmed⟩ := trimmed_of_mem_clean single member
    exact ⟨filled, fun c first => not_isBlank_head trimmed first,
      fun c last => not_isBlank_getLast trimmed last⟩
  · intro filled
    rcases clean_cases lines with ⟨interior, taken, _⟩ | cleaned
    · obtain ⟨last, ends, closed⟩ := closed_of_block single taken
      exact ⟨last, ends, .inr closed⟩
    · have some : lastRun (nonblank lines) ≠ [] := by
        intro none
        rw [cleaned, none] at filled
        exact filled rfl
      obtain ⟨last, ends, slashed⟩ := slashed_of_lastRun some
      exact ⟨last, ends, .inl slashed⟩

def pollLines : List Line :=
  ["uint polls; // so far", "", "/** Opens", "  *", "  * ** a poll", "", " for all. */  "].map
    String.toList

theorem texts_of_poll :
    (∀ line ∈ pollLines, '\n' ∉ line) ∧
      clean pollLines = ["Opens", "** a poll", "for all."].map String.toList ∧
      (∃ place : Nat → Nat, StrictMono place ∧
        ∀ k text, (clean pollLines)[k]? = some text →
          ∃ line, pollLines[place k]? = some line ∧ text <:+: line) ∧
      ∃ last, (nonblank pollLines).getLast? = some last ∧
        ("//".toList <+: last ∨ "*/".toList <:+ last) := by
  have single : ∀ line ∈ pollLines, '\n' ∉ line := by decide
  have cleaned : clean pollLines = ["Opens", "** a poll", "for all."].map String.toList := by
    decide
  obtain ⟨_, places, ends⟩ := texts_taken_in_order single
  exact ⟨single, cleaned, places, ends (cleaned ▸ List.cons_ne_nil _ _)⟩

end ContractTables.Comment
