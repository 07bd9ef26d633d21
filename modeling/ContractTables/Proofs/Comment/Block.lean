import ContractTables.Comment.Region
import ContractTables.Proofs.Path.Pieces
import ContractTables.Proofs.Text.Lines
import ContractTables.Proofs.Text.Marks
import ContractTables.Proofs.Text.Trim

/-!
The text of a block comment. A region that ends in a closing mark is read from its last
opening mark on, down to that end. What is read holds no other closing mark exactly if the
block that is opened last is closed by the mark at the end; otherwise the lines behind the
block, up to the end of the region, are read as its text as well.
-/
namespace ContractTables

open Text

namespace Comment

theorem exists_of_blockInterior? {text interior : List Char}
    (taken : blockInterior? text = some interior) :
    ∃ before, text = before ++ "/**".toList ++ interior ++ "*/".toList ∧
      occurs "/**".toList interior = false := by
  obtain ⟨body, dropped, rest⟩ := Option.bind_eq_some_iff.mp taken
  obtain ⟨⟨before, found⟩, cut, kept⟩ := Option.bind_eq_some_iff.mp rest
  have same : found = interior := by
    dsimp only at kept
    split at kept
    · cases kept
    · exact Option.some.inj kept
  subst same
  refine ⟨before, ?_, ?_⟩
  · rw [dropEndMark?_eq_some_iff.mp dropped, cutLast?_eq_append cut]
  · have mark : "/**".toList = '/' :: ['*', '*'] := by decide
    rw [mark] at cut ⊢
    rw [← Bool.not_eq_true]
    intro inside
    exact absurd (occurs_of_append inside) (Bool.not_eq_true _ ▸ occurs_behind_cutLast? cut)

theorem single_nonblank {lines : List Line} (single : ∀ line ∈ lines, '\n' ∉ line) :
    ∀ line ∈ nonblank lines, '\n' ∉ line := by
  intro line member
  obtain ⟨source, among, rfl⟩ := List.mem_map.mp (List.mem_of_mem_filter member)
  exact fun inside => single source among (mem_of_mem_trim inside)

/-- The text of a block in the lines of its region: the rest of the line where it is opened
last, and all lines below. -/
theorem exists_lines_of_blockInterior? {lines : List Line} {interior : List Char}
    (single : ∀ line ∈ lines, '\n' ∉ line)
    (taken : blockInterior? (unlines (nonblank lines)) = some interior) :
    ∃ above front first below,
      nonblank lines =
        ended "*/".toList (above ++ (front ++ "/**".toList ++ first) :: below) ∧
      interior.splitOn '\n' = first :: below ∧ occurs "/**".toList interior = false := by
  obtain ⟨before, whole, last⟩ := exists_of_blockInterior? taken
  obtain ⟨first, below, inner⟩ :=
    List.exists_cons_of_ne_nil (List.splitOn_ne_nil '\n' interior)
  obtain ⟨above, front, outer⟩ :=
    (List.eq_nil_or_concat' (before.splitOn '\n')).resolve_left (List.splitOn_ne_nil '\n' before)
  refine ⟨above, front, first, below, ?_, inner, last⟩
  have joined : unlines (nonblank lines) =
      unlines (ended "*/".toList (above ++ (front ++ "/**".toList ++ first) :: below)) := by
    rw [whole, unlines_ended _ (by simp), ← unlines_append_between, ← outer, ← inner,
      unlines_splitOn, unlines_splitOn]
  have noBreaks : ∀ line ∈ above ++ (front ++ "/**".toList ++ first) :: below, '\n' ∉ line := by
    have piecesOf (text : List Char) (line : Line) (member : line ∈ text.splitOn '\n') :
        '\n' ∉ line := notMem_of_mem_splitOn member
    intro line member
    rcases List.mem_append.mp member with high | low
    · exact piecesOf before line (outer ▸ List.mem_append_left _ high)
    · rcases List.mem_cons.mp low with rfl | low
      · have frontSingle := piecesOf before front (by simp [outer])
        have firstSingle := piecesOf interior first (by simp [inner])
        simp [frontSingle, firstSingle]
      · exact piecesOf interior line (inner ▸ List.mem_cons_of_mem _ low)
  refine unlines_inj ?_ (ended_ne_nil _ (by simp)) (single_nonblank single)
    (noBreak_of_mem_ended (by decide) noBreaks) joined
  intro none
  rw [none] at whole
  simp [unlines] at whole

/-- A closing mark behind a text is the first one exactly if the text holds none. -/
theorem exists_cutFirst?_closing (interior : List Char) :
    ∃ own after, cutFirst? "*/".toList (interior ++ "*/".toList) = some (own, after) ∧
      (occurs "*/".toList interior = false ↔ after = []) := by
  cases cut : cutFirst? "*/".toList (interior ++ "*/".toList) with
  | none =>
      have closed : occurs "*/".toList (interior ++ "*/".toList) := occurs_of_append (by decide)
      rw [cutFirst?_eq_none_iff.mp cut] at closed
      cases closed
  | some found =>
      obtain ⟨own, after⟩ := found
      have whole := cutFirst?_eq_append cut
      have mark : "*/".toList = ['*'] ++ ['/'] := by decide
      refine ⟨own, after, rfl, ?_⟩
      constructor
      · intro open_
        rcases List.eq_nil_or_concat' after with rfl | ⟨rest, c, rfl⟩
        · rfl
        · rw [mark, ← List.append_assoc, ← List.append_assoc] at whole
          have shorter := (List.append_singleton_inj.mp whole).1
          rcases List.eq_nil_or_concat' rest with rfl | ⟨stray, d, rfl⟩
          · -- The two marks would share a character, but each has two different ones.
            rw [List.append_nil, ← List.append_assoc] at shorter
            exact absurd (List.append_singleton_inj.mp shorter).2 (by decide)
          · rw [← List.append_assoc] at shorter
            have inside : occurs "*/".toList interior := by
              rw [(List.append_singleton_inj.mp shorter).1, mark, occurs_iff]
              exact List.infix_append own _ stray
            rw [open_] at inside
            cases inside
      · rintro rfl
        rw [List.append_nil] at whole
        rw [List.append_cancel_right whole]
        exact occurs_before_cutFirst? (by decide) cut

theorem clean_of_blockInterior? {lines : List Line} {interior : List Char}
    (taken : blockInterior? (unlines (nonblank lines)) = some interior) :
    clean lines = ((interior.splitOn '\n').map dropBullet).filter (!·.isEmpty) := by
  rw [clean, taken]

/-- A block is read from its last opening mark to the end of the region: the rest of that line
and all lines below, but for the mark at the end. This text holds no other closing mark exactly
if none of these lines does, which is to say that the mark at the end is the first one behind
the opening mark. -/
theorem block_closed_at_end_iff {lines : List Line} (single : ∀ line ∈ lines, '\n' ∉ line)
    {interior : List Char}
    (taken : blockInterior? (unlines (nonblank lines)) = some interior) :
    ∃ above front first below,
      nonblank lines =
        ended "*/".toList (above ++ (front ++ "/**".toList ++ first) :: below) ∧
      interior = unlines (first :: below) ∧
      (∀ line ∈ first :: below, occurs "/**".toList line = false) ∧
      clean lines = ((first :: below).map dropBullet).filter (!·.isEmpty) ∧
      (occurs "*/".toList interior = false ↔
        ∀ line ∈ first :: below, occurs "*/".toList line = false) ∧
      ∃ own after, cutFirst? "*/".toList (interior ++ "*/".toList) = some (own, after) ∧
        (occurs "*/".toList interior = false ↔ after = []) := by
  obtain ⟨above, front, first, below, rows, inner, last⟩ :=
    exists_lines_of_blockInterior? single taken
  have joined : interior = unlines (first :: below) := by
    rw [← inner, unlines_splitOn]
  have lineByLine (mark : List Char) (filled : mark ≠ []) (noBreak : '\n' ∉ mark) :
      occurs mark interior = false ↔ ∀ line ∈ first :: below, occurs mark line = false := by
    rw [joined, occurs_unlines noBreak filled, List.any_eq_false]
    simp
  refine ⟨above, front, first, below, rows, joined, ?_, ?_, ?_, exists_cutFirst?_closing interior⟩
  · exact (lineByLine "/**".toList (by decide) (by decide)).mp last
  · rw [clean_of_blockInterior? taken, inner]
  · exact lineByLine "*/".toList (by decide) (by decide)

def votesLines : List Line :=
  ["/** Votes. */", "uint votes;", "/** Casts", "  * a vote. */", ""].map String.toList

theorem block_of_votes :
    (∀ line ∈ votesLines, '\n' ∉ line) ∧
      blockInterior? (unlines (nonblank votesLines)) = some " Casts\n* a vote. ".toList ∧
      ∃ above front first below,
        nonblank votesLines =
          ended "*/".toList (above ++ (front ++ "/**".toList ++ first) :: below) ∧
        " Casts\n* a vote. ".toList = unlines (first :: below) ∧
        clean votesLines = ((first :: below).map dropBullet).filter (!·.isEmpty) ∧
        ∀ line ∈ first :: below, occurs "*/".toList line = false := by
  have single : ∀ line ∈ votesLines, '\n' ∉ line := by decide
  have taken : blockInterior? (unlines (nonblank votesLines)) =
      some " Casts\n* a vote. ".toList := by decide
  obtain ⟨above, front, first, below, rows, joined, _, cleaned, closed, _⟩ :=
    block_closed_at_end_iff single taken
  exact ⟨single, taken, above, front, first, below, rows, joined, cleaned,
    closed.mp (by decide)⟩

def supplyLines : List Line :=
  ["/** Total supply. */", "uint256 total; /* in wei */"].map String.toList

/-- The end of the plain comment is taken for the end of the block, and the declaration for
a line of it. -/
theorem code_read_as_comment :
    (∀ line ∈ supplyLines, '\n' ∉ line) ∧
      ∃ interior, blockInterior? (unlines (nonblank supplyLines)) = some interior ∧
        occurs "*/".toList interior = true ∧
        clean supplyLines =
          ["Total supply. */", "uint256 total; /* in wei"].map String.toList := by
  refine ⟨by decide, " Total supply. */\nuint256 total; /* in wei ".toList, ?_, ?_, ?_⟩
  · decide
  · decide
  · decide

end Comment
end ContractTables
