import ContractTables.Proofs.Comment.Passes

/-!
Which source lines a definition takes its comment from. Its window lies strictly between
a boundary, set by the row before it, and its own first line. Nothing else in the source or
in the table decides what comment it gets, and where rows stand in source order no line is
in the windows of two of them.
-/
namespace ContractTables

open Text

/-- The line that bounds the window of a row from above: the last line of the row before
it, or the first one if that row ends at or below the first line of this row. -/
def LineSpan.boundary (previous span : LineSpan) : Nat :=
  if previous.last < span.first then previous.last else previous.first

theorem LineSpan.first_le_boundary {previous : LineSpan} (span : LineSpan)
    (forward : previous.first ≤ previous.last) : previous.first ≤ previous.boundary span := by
  rw [boundary]
  split
  · exact forward
  · exact Nat.le_refl _

namespace Tables

def spans (tables : Tables) : List LineSpan := tables.objects.map (·.definition.span)

def spanBefore (tables : Tables) (i : Nat) : LineSpan :=
  (⟨0, 0⟩ :: tables.spans)[i]?.getD ⟨0, 0⟩

def InWindow (tables : Tables) (i line : Nat) : Prop :=
  ∃ row, tables.objects[i]? = some row ∧
    (tables.spanBefore i).boundary row.definition.span < line ∧
    line < row.definition.span.first

structure InSourceOrder (tables : Tables) : Prop where
  forward : ∀ row ∈ tables.objects, row.definition.span.first ≤ row.definition.span.last
  ordered : tables.objects.Pairwise fun row later =>
    row.definition.span.first ≤ later.definition.span.first

end Tables

namespace Comment

theorem window_congr {lines other : List Line} {first last : Nat}
    (agree : ∀ n, first ≤ n → n < last → lines[n]? = other[n]?) :
    window lines first last = window other first last := by
  apply List.ext_getElem?
  intro k
  rw [window, window, List.getElem?_drop, List.getElem?_drop, List.getElem?_take,
    List.getElem?_take]
  by_cases inside : first + k < last
  · rw [if_pos inside, if_pos inside]
    exact agree (first + k) (Nat.le_add_right first k) inside
  · rw [if_neg inside, if_neg inside]

theorem definitionWindow_congr {lines other : List Line} {previous span : LineSpan}
    (agree : ∀ line, previous.boundary span < line → line < span.first →
      lines[line - 1]? = other[line - 1]?) :
    definitionWindow lines previous span = definitionWindow other previous span := by
  apply window_congr
  intro n after before
  -- The window is empty unless a line stands above the first one, so the tests agree.
  have bound : previous.boundary span ≤ n := by
    rw [LineSpan.boundary]
    split at after
    · rw [if_pos (by omega)]
      exact after
    · rw [if_neg (by omega)]
      exact after
  exact agree (n + 1) (by omega) (by omega)

theorem getElem?_foundAbove (lines : List Line) {tables : Tables} {i : Nat} {row : ObjectRow}
    (here : tables.objects[i]? = some row) :
    (foundAbove lines tables.definitions)[i]? =
      some (ofDefinition? (definitionWindow lines (tables.spanBefore i) row.definition.span)) := by
  have span : tables.spans[i]? = some row.definition.span := by
    rw [Tables.spans, List.getElem?_map, here]
    rfl
  rw [foundAbove, Tables.spans_definitions, definitionComments, List.getElem?_map,
    ← Tables.spans, getElem?_withPrevious ⟨0, 0⟩ span]
  rfl

/-- What a row gets: the comment found in its window, or else the comment it had. -/
theorem comment_attachToObjects (lines : List Line) {tables : Tables} {i : Nat} {row : ObjectRow}
    (here : tables.objects[i]? = some row) :
    (attachToObjects lines tables).objects[i]?.map (·.comment) =
      some (row.comment.replaced
        (ofDefinition? (definitionWindow lines (tables.spanBefore i) row.definition.span))) := by
  rw [attachToObjects_objects, commented, List.getElem?_zipWith, here,
    getElem?_foundAbove lines here]
  simp only [setComment_eq, Option.map_some]

/-- A row takes the same comment from two sources that agree on its window, in whatever
tables it stands, as long as its own span and that of the row before are the same. -/
theorem comment_congr {lines otherLines : List Line} {tables other : Tables} {i j : Nat}
    {row otherRow : ObjectRow} (here : tables.objects[i]? = some row)
    (there : other.objects[j]? = some otherRow) (comment : row.comment = otherRow.comment)
    (span : row.definition.span = otherRow.definition.span)
    (before : tables.spanBefore i = other.spanBefore j)
    (agree : ∀ line, tables.InWindow i line → lines[line - 1]? = otherLines[line - 1]?) :
    (attachToObjects lines tables).objects[i]?.map (·.comment) =
      (attachToObjects otherLines other).objects[j]?.map (·.comment) := by
  have windows : definitionWindow lines (tables.spanBefore i) row.definition.span =
      definitionWindow otherLines (tables.spanBefore i) row.definition.span := by
    apply definitionWindow_congr
    intro line above below
    exact agree line ⟨row, here, above, below⟩
  rw [comment_attachToObjects lines here, comment_attachToObjects otherLines there, ← span,
    ← before, ← comment, windows]

end Comment

namespace Tables

/-- The row before a row does not begin above the rows before it. -/
theorem first_le_spanBefore {tables : Tables} (sorted : tables.InSourceOrder) {i j : Nat}
    {row later : ObjectRow} (here : tables.objects[i]? = some row) (before : i < j)
    (there : tables.objects[j]? = some later) :
    row.definition.span.first ≤ (tables.spanBefore j).first ∧
      (tables.spanBefore j).first ≤ (tables.spanBefore j).last := by
  obtain ⟨k, rfl⟩ : ∃ k, j = k + 1 := ⟨j - 1, by omega⟩
  have inside : k < tables.objects.length := by
    have := (List.getElem?_eq_some_iff.mp there).1
    omega
  have span : tables.spanBefore (k + 1) = tables.objects[k].definition.span := by
    simp [spanBefore, spans, List.getElem?_eq_getElem inside]
  obtain ⟨reached, rfl⟩ := List.getElem?_eq_some_iff.mp here
  rw [span]
  refine ⟨?_, sorted.forward _ (List.getElem_mem inside)⟩
  rcases Nat.lt_or_ge i k with earlier | same
  · exact List.pairwise_iff_getElem.mp sorted.ordered i k reached inside earlier
  · obtain rfl : i = k := by omega
    exact Nat.le_refl _

theorem not_inWindow_later {tables : Tables} (sorted : tables.InSourceOrder) {i j line : Nat}
    (before : i < j) (seen : tables.InWindow i line) : ¬ tables.InWindow j line := by
  rintro ⟨later, there, above, _⟩
  obtain ⟨row, here, _, below⟩ := seen
  obtain ⟨first, forward⟩ := first_le_spanBefore sorted here before there
  have bound := LineSpan.first_le_boundary later.definition.span forward
  omega

/-- The comment of a row depends on nothing but the comment it had, its span, the span of
the row before it and the lines in its window. In source order, no line is in the windows
of two rows. -/
theorem comment_from_own_window :
    (∀ (tables other : Tables) (lines otherLines : List Line) (i j : Nat)
        (row otherRow : ObjectRow), tables.objects[i]? = some row →
      other.objects[j]? = some otherRow → row.comment = otherRow.comment →
      row.definition.span = otherRow.definition.span →
      tables.spanBefore i = other.spanBefore j →
      (∀ line, tables.InWindow i line → lines[line - 1]? = otherLines[line - 1]?) →
      ∃ comment,
        (Comment.attachToObjects lines tables).objects[i]?.map (·.comment) = some comment ∧
        (Comment.attachToObjects otherLines other).objects[j]?.map (·.comment) = some comment) ∧
    ∀ tables : Tables, tables.InSourceOrder → ∀ i j line, i ≠ j →
      ¬ (tables.InWindow i line ∧ tables.InWindow j line) := by
  constructor
  · intro tables other lines otherLines i j row otherRow here there comment span before agree
    have found := Comment.comment_attachToObjects otherLines there
    exact ⟨_, (Comment.comment_congr here there comment span before agree).trans found, found⟩
  · rintro tables sorted i j line different ⟨first, second⟩
    rcases Nat.lt_or_gt_of_ne different with before | after
    · exact not_inWindow_later sorted before first second
    · exact not_inWindow_later sorted after second first

def counter (contract function : String) : Tables :=
  .ofItems
    [.definition ⟨contract, .contract, contract, [], [], [], "", ⟨1, 6⟩⟩,
      .definition ⟨function, .function, contract, [], [], [], "", ⟨4, 5⟩⟩]

theorem inSourceOrder_counter (contract function : String) :
    (counter contract function).InSourceOrder where
  forward := by
    intro row member
    cases member with
    | head => exact (by decide : 1 ≤ 6)
    | tail _ member =>
        obtain rfl := List.mem_singleton.mp member
        exact (by decide : 4 ≤ 5)
  ordered := List.pairwise_pair.mpr (by decide : 1 ≤ 4)

def voteLines : List Line :=
  ["abstract contract Votes", "  /// Adds one.", "", "  function count()", "  public;",
    ""].map String.toList

def tallyLines : List Line :=
  ["interface Polls", "  /// Adds one.", "", "  function tally() // twice", "  /// again",
    ""].map String.toList

theorem agree_of_inWindow_counter {line : Nat}
    (seen : (counter "Votes" "count").InWindow 1 line) :
    voteLines[line - 1]? = tallyLines[line - 1]? := by
  obtain ⟨row, here, above, below⟩ := seen
  cases here
  have lower : 1 < line := above
  have upper : line < 4 := below
  obtain rfl | rfl : line = 2 ∨ line = 3 := by omega
  · simp [voteLines, tallyLines]
  · simp [voteLines, tallyLines]

theorem comment_from_window_of_counter :
    (∃ comment,
      (Comment.attachToObjects voteLines (counter "Votes" "count")).objects[1]?.map (·.comment) =
        some comment ∧
      (Comment.attachToObjects tallyLines (counter "Polls" "tally")).objects[1]?.map (·.comment) =
        some comment) ∧
    ∀ i j line, i ≠ j → ¬ ((counter "Votes" "count").InWindow i line ∧
      (counter "Votes" "count").InWindow j line) :=
  ⟨comment_from_own_window.1 _ _ _ _ 1 1 _ _ rfl rfl rfl rfl rfl
      fun _ seen => agree_of_inWindow_counter seen,
    comment_from_own_window.2 _ (inSourceOrder_counter "Votes" "count")⟩

end Tables
end ContractTables
