import ContractTables.Comment.Found
import ContractTables.Proofs.Comment.Block

/-!
The two forms of a comment. Texts that are written as the lines of a block comment, or each
as a line comment, are read back as they are, whatever stands above them in the source, so
the form of a comment makes no difference.
-/
namespace ContractTables.Comment

open Text

structure IsCommentText (text : Line) : Prop where
  filled : text ≠ []
  trimmed : trim text = text
  single : '\n' ∉ text
  unopened : occurs "/**".toList text = false
  unclosed : occurs "*/".toList text = false

instance (text : Line) : Decidable (IsCommentText text) :=
  decidable_of_iff (text ≠ [] ∧ trim text = text ∧ '\n' ∉ text ∧
      occurs "/**".toList text = false ∧ occurs "*/".toList text = false)
    ⟨fun ⟨filled, trimmed, single, unopened, unclosed⟩ =>
        ⟨filled, trimmed, single, unopened, unclosed⟩,
      fun ⟨filled, trimmed, single, unopened, unclosed⟩ =>
        ⟨filled, trimmed, single, unopened, unclosed⟩⟩

def blockForm (texts : List Line) : List Line :=
  "/**".toList :: (texts.map (" * ".toList ++ ·) ++ [" */".toList])

def lineForm (texts : List Line) : List Line := texts.map ("/// ".toList ++ ·)

theorem nonblank_append (lines others : List Line) :
    nonblank (lines ++ others) = nonblank lines ++ nonblank others := by
  rw [nonblank, List.map_append, List.filter_append]
  rfl

theorem nonblank_of_filled {lines : List Line} (filled : ∀ line ∈ lines, trim line ≠ []) :
    nonblank lines = lines.map trim := by
  apply List.filter_eq_self.mpr
  intro line member
  obtain ⟨source, among, rfl⟩ := List.mem_map.mp member
  simpa using filled source among

/-- Texts are read back if each line loses the mark that was put before its text. -/
theorem read_written {write read : Line → Line} {texts : List Line}
    (back : ∀ text, IsCommentText text → read (write text) = text)
    (plain : ∀ text ∈ texts, IsCommentText text) :
    ((texts.map write).map read).filter (!·.isEmpty) = texts := by
  have same : (texts.map write).map read = texts := by
    rw [List.map_map]
    exact (List.map_congr_left fun text member => back text (plain text member)).trans
      (List.map_id' texts)
  rw [same]
  apply List.filter_eq_self.mpr
  intro text member
  simpa using (plain text member).filled

/-! Blocks. -/

def starred (text : Line) : Line := "* ".toList ++ text

theorem trim_starred {text : Line} (plain : IsCommentText text) :
    trim (" * ".toList ++ text) = starred text := by
  calc trim (" * ".toList ++ text)
      = trim ('*' :: [' '] ++ text) := trim_cons (by decide) _
    _ = starred text := trim_marked (by decide) [' '] plain.filled plain.trimmed

theorem dropBullet_starred (text : Line) (plain : IsCommentText text) :
    dropBullet (starred text) = text := by
  calc dropBullet (starred text)
      = trim (' ' :: text) := rfl
    _ = text := by rw [trim_cons (by decide), plain.trimmed]

def blockPieces (texts : List Line) : List Line := [] :: (texts.map starred ++ [[]])

section Block

variable {texts : List Line} (plain : ∀ text ∈ texts, IsCommentText text)

include plain

theorem forall_mem_blockPieces {p : Line → Prop} (gap : p [])
    (row : ∀ text, IsCommentText text → p (starred text)) : ∀ line ∈ blockPieces texts, p line := by
  intro line member
  rcases List.mem_cons.mp member with rfl | later
  · exact gap
  · rcases List.mem_append.mp later with among | last
    · obtain ⟨text, written, rfl⟩ := List.mem_map.mp among
      exact row text (plain text written)
    · rw [List.mem_singleton.mp last]
      exact gap

theorem nonblank_blockForm :
    nonblank (blockForm texts) = "/**".toList :: (texts.map starred ++ ["*/".toList]) := by
  have rows : (texts.map (" * ".toList ++ ·)).map trim = texts.map starred := by
    rw [List.map_map]
    exact List.map_congr_left fun text member => trim_starred (plain text member)
  have filled : ∀ line ∈ blockForm texts, trim line ≠ [] := by
    intro line member
    rcases List.mem_cons.mp member with rfl | later
    · decide
    · rcases List.mem_append.mp later with among | last
      · obtain ⟨text, written, rfl⟩ := List.mem_map.mp among
        rw [trim_starred (plain text written)]
        exact List.cons_ne_nil _ _
      · rw [List.mem_singleton.mp last]
        decide
  rw [nonblank_of_filled filled, blockForm, List.map_cons, List.map_append, rows]
  rfl

/-- The opening mark of a block is the last one, and no part of it begins another. -/
theorem unopened_blockPieces :
    occurs "/**".toList ("**".toList ++ unlines (blockPieces texts)) = false := by
  have same : "**".toList ++ unlines (blockPieces texts) =
      unlines ("**".toList :: (texts.map starred ++ [[]])) := by
    rw [blockPieces, ← unlines_append_first, List.append_nil]
  have pieces := forall_mem_blockPieces plain (p := fun line => occurs "/**".toList line = false)
    (by decide) fun text written => written.unopened
  rw [same, occurs_unlines (by decide) (by decide), List.any_eq_false]
  intro line member
  rw [Bool.not_eq_true]
  rcases List.mem_cons.mp member with rfl | later
  · decide
  · exact pieces line (List.mem_cons_of_mem _ later)

theorem blockInterior?_blockForm (above : List Line) :
    blockInterior? (unlines (above ++ nonblank (blockForm texts))) =
      some (unlines (blockPieces texts)) := by
  rw [nonblank_blockForm plain]
  obtain ⟨before, joined⟩ :=
    unlines_suffix above "/**".toList (texts.map starred ++ ["*/".toList])
  have marked : before ++ unlines ("/**".toList :: (texts.map starred ++ ["*/".toList])) =
      before ++ ("/**".toList ++ unlines (blockPieces texts)) ++ "*/".toList := by
    simp [blockPieces, unlines_eq_append_below, below_append]
  have closed := dropEndMark?_eq_some_iff.mpr marked
  have opened : cutLast? "/**".toList (before ++ ("/**".toList ++ unlines (blockPieces texts))) =
      some (before, unlines (blockPieces texts)) :=
    cutLast?_mark (unopened_blockPieces plain) before
  have filled : (unlines (blockPieces texts)).isEmpty = false := by
    rw [blockPieces, unlines_cons [] (by simp)]
    rfl
  simp only [← joined, blockInterior?, closed, opened, filled, Option.bind_eq_bind,
    Option.bind_some]
  rfl

theorem clean_blockForm (above : List Line) : clean (above ++ blockForm texts) = texts := by
  have taken : blockInterior? (unlines (nonblank (above ++ blockForm texts))) =
      some (unlines (blockPieces texts)) := by
    rw [nonblank_append]
    exact blockInterior?_blockForm plain (nonblank above)
  have single : ∀ line ∈ blockPieces texts, '\n' ∉ line :=
    forall_mem_blockPieces plain List.not_mem_nil fun text written => by
      simpa [starred] using written.single
  have pieces : (unlines (blockPieces texts)).splitOn '\n' = blockPieces texts :=
    splitOn_unlines (List.cons_ne_nil _ _) single
  have empty : dropBullet [] = [] := rfl
  rw [clean_of_blockInterior? taken, pieces, blockPieces, List.map_cons, List.map_append, empty,
    List.filter_cons_of_neg (by simp), List.filter_append, read_written dropBullet_starred plain]
  exact List.append_nil texts

end Block

/-! Line comments. -/

theorem trim_slashed {text : Line} (plain : IsCommentText text) :
    trim ("/// ".toList ++ text) = "/// ".toList ++ text :=
  trim_marked (by decide) "// ".toList plain.filled plain.trimmed

theorem dropSlashes_slashed (text : Line) (plain : IsCommentText text) :
    dropSlashes ("/// ".toList ++ text) = text := by
  calc dropSlashes ("/// ".toList ++ text)
      = trim (' ' :: text) := rfl
    _ = text := by rw [trim_cons (by decide), plain.trimmed]

/-- The run of line comments at the end begins below the lines that end in none. -/
theorem run_lineForm {above : List Line}
    (apart : ∀ last, above.getLast? = some last → isLineComment last = false)
    (texts : List Line) :
    ((above ++ lineForm texts).reverse.takeWhile isLineComment).reverse = lineForm texts := by
  have all : ∀ line ∈ (lineForm texts).reverse, isLineComment line = true := by
    intro line member
    obtain ⟨text, _, rfl⟩ := List.mem_map.mp (List.mem_reverse.mp member)
    rfl
  have stopped : above.reverse.takeWhile isLineComment = [] := by
    cases upward : above.reverse with
    | nil => rfl
    | cons last rest =>
        apply List.takeWhile_cons_of_neg
        have ends : above.getLast? = some last := by
          rw [← List.head?_reverse, upward]
          rfl
        rw [apart last ends]
        exact Bool.false_ne_true
  rw [List.reverse_append, List.takeWhile_append_of_pos all, stopped, List.append_nil,
    List.reverse_reverse]

section Lines

variable {texts : List Line} (filled : texts ≠ [])
  (plain : ∀ text ∈ texts, IsCommentText text)

include plain

theorem nonblank_lineForm : nonblank (lineForm texts) = lineForm texts := by
  have trimmed : ∀ line ∈ lineForm texts, trim line = line := by
    intro line member
    obtain ⟨text, written, rfl⟩ := List.mem_map.mp member
    exact trim_slashed (plain text written)
  have some : ∀ line ∈ lineForm texts, trim line ≠ [] := by
    intro line member
    rw [trimmed line member]
    obtain ⟨text, _, rfl⟩ := List.mem_map.mp member
    exact List.cons_ne_nil _ _
  rw [nonblank_of_filled some]
  exact (List.map_congr_left trimmed).trans (List.map_id' _)

include filled

/-- Line comments are not taken for a block, whose closing mark would be in the last text. -/
theorem blockInterior?_lineForm (above : List Line) :
    blockInterior? (unlines (above ++ lineForm texts)) = none := by
  obtain ⟨front, last, rfl⟩ := (List.eq_nil_or_concat' texts).resolve_left filled
  have unclosed : occurs "*/".toList ("/// ".toList ++ last) = false :=
    (plain last (by simp)).unclosed
  have ends : "/// ".toList ++ last <:+ unlines (above ++ lineForm (front ++ [last])) := by
    have below := unlines_suffix (above ++ lineForm front) ("/// ".toList ++ last) []
    simpa [lineForm, unlines] using below
  have open_ : dropEndMark? "*/".toList (unlines (above ++ lineForm (front ++ [last]))) =
      none := by
    rw [Option.eq_none_iff_forall_not_mem]
    intro body closed
    have mark : "*/".toList <:+ unlines (above ++ lineForm (front ++ [last])) :=
      ⟨body, (dropEndMark?_eq_some_iff.mp closed).symm⟩
    have within : "*/".toList <:+ "/// ".toList ++ last :=
      List.suffix_of_suffix_length_le mark ends (by simp)
    rw [← Bool.not_eq_true, occurs_iff] at unclosed
    exact unclosed within.isInfix
  rw [blockInterior?, open_]
  rfl

theorem clean_lineForm {above : List Line}
    (apart : ∀ last, (nonblank above).getLast? = some last → isLineComment last = false) :
    clean (above ++ lineForm texts) = texts := by
  have taken := blockInterior?_lineForm filled plain (nonblank above)
  rw [clean, nonblank_append, nonblank_lineForm plain, taken]
  dsimp only
  rw [run_lineForm apart]
  exact read_written dropSlashes_slashed plain

end Lines

theorem ofDefinition?_of_clean {region texts : List Line} (cleaned : clean region = texts)
    (filled : texts ≠ []) : ofDefinition? region = some (ofText (unlines texts)) := by
  obtain ⟨first, rest, rfl⟩ := List.exists_cons_of_ne_nil filled
  rw [ofDefinition?, cleaned]

/-- Both forms of a comment are read as the texts that were written, the block below any lines
and the line comments below any lines that do not end in a line comment. So both give a
definition the same comment. -/
theorem both_forms_read_back {texts : List Line} (filled : texts ≠ [])
    (plain : ∀ text ∈ texts, IsCommentText text) :
    (∀ above, clean (above ++ blockForm texts) = texts) ∧
    (∀ above, (∀ last, (nonblank above).getLast? = some last → isLineComment last = false) →
      clean (above ++ lineForm texts) = texts) ∧
    ∀ above other,
      (∀ last, (nonblank other).getLast? = some last → isLineComment last = false) →
      ofDefinition? (above ++ blockForm texts) = some (ofText (unlines texts)) ∧
        ofDefinition? (above ++ blockForm texts) = ofDefinition? (other ++ lineForm texts) := by
  have block := clean_blockForm plain
  refine ⟨block, fun above apart => clean_lineForm filled plain apart, ?_⟩
  intro above other apart
  have fromBlock := ofDefinition?_of_clean (block above) filled
  have fromLines := ofDefinition?_of_clean (clean_lineForm filled plain apart) filled
  exact ⟨fromBlock, fromBlock.trans fromLines.symm⟩

def ballotTexts : List Line :=
  ["@notice Casts a ballot.", "* one for each voter", "/ or none"].map String.toList

def ballotAbove : List Line :=
  ["/** Ballots. */", "  uint256 ballots; // so far", "\t"].map String.toList

theorem both_forms_of_ballot :
    ballotTexts ≠ [] ∧ (∀ text ∈ ballotTexts, IsCommentText text) ∧
      (∀ last, (nonblank ballotAbove).getLast? = some last → isLineComment last = false) ∧
      clean (ballotAbove ++ blockForm ballotTexts) = ballotTexts ∧
      clean (ballotAbove ++ lineForm ballotTexts) = ballotTexts ∧
      ofDefinition? (ballotAbove ++ blockForm ballotTexts) =
        ofDefinition? (ballotAbove ++ lineForm ballotTexts) := by
  have filled : ballotTexts ≠ [] := by decide
  have plain : ∀ text ∈ ballotTexts, IsCommentText text := by decide
  have apart : ∀ last, (nonblank ballotAbove).getLast? = some last →
      isLineComment last = false := by
    intro last ends
    cases ends
    decide
  obtain ⟨block, lines, same⟩ := both_forms_read_back filled plain
  exact ⟨filled, plain, apart, block ballotAbove, lines ballotAbove apart,
    (same ballotAbove ballotAbove apart).2⟩

end ContractTables.Comment
