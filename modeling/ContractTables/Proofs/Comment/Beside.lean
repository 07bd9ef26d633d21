import ContractTables.Proofs.Comment.Repetition
import ContractTables.Proofs.Comment.Windows

/-!
The pass over declarations. It fills what is empty in the comment of a row and keeps all
else. What it fills in comes from the lines between the declaration before and the row's own
line; nothing else in the source or in the list decides it. A second pass finds the same
comments, so it has nothing left to fill.
-/
namespace ContractTables

open Text

structure DeclarationComment.Keeps (comment earlier : DeclarationComment) : Prop where
  full : earlier.full ≠ "" → comment.full = earlier.full
  description : earlier.description ≠ "" → comment.description = earlier.description
  inline : earlier.inline ≠ "" → comment.inline = earlier.inline

namespace Comment

/-- A line, counted from one, that a declaration in line `own` looks at if the declaration
before it stands in line `previous`. -/
structure InReach (previous own line : Nat) : Prop where
  counted : 1 ≤ line
  after : min (previous + 1) (own - 1) ≤ line
  upTo : line ≤ own

theorem fill_of_ne_empty {present : String} (found : String) (filled : present ≠ "") :
    fill present found = present := by
  rw [fill, if_neg]
  rwa [String.isEmpty_iff]

theorem fill_fill (present found : String) :
    fill (fill present found) found = fill present found := by
  by_cases empty : present = ""
  · rw [empty, fill_empty, fill_self]
  · rw [fill_of_ne_empty found empty, fill_of_ne_empty found empty]

theorem keeps_filled (comment : DeclarationComment) (found : Option DeclarationComment) :
    (comment.filled found).Keeps comment := by
  cases found with
  | none => exact ⟨fun _ => rfl, fun _ => rfl, fun _ => rfl⟩
  | some found =>
      exact ⟨fill_of_ne_empty found.full, fill_of_ne_empty found.description,
        fill_of_ne_empty found.inline⟩

theorem filled_filled (comment : DeclarationComment) (found : Option DeclarationComment) :
    (comment.filled found).filled found = comment.filled found := by
  cases found with
  | none => rfl
  | some found => simp only [DeclarationComment.filled, fill_fill]

theorem declarationWindow_congr {lines other : List Line} {previous own : Nat}
    (agree : ∀ line, InReach previous own line → lines[line - 1]? = other[line - 1]?) :
    declarationWindow lines previous own = declarationWindow other previous own := by
  apply window_congr
  intro n after before
  -- Counted from one, line `n` of the window is line `n + 1` of the source.
  exact agree (n + 1) ⟨by omega, by omega, by omega⟩

theorem attachInline_eq_zipWith (lines : List Line) (rows : List ParameterRow) :
    attachInline lines rows =
      rows.zipWith fillComment (foundBeside lines (rows.map (·.declaration))) := by
  rw [attachInline, foundBeside, List.map_map]
  rfl

theorem declarations_attachInline (lines : List Line) (rows : List ParameterRow) :
    (attachInline lines rows).map (·.declaration) = rows.map (·.declaration) := by
  rw [attachInline_eq_zipWith]
  apply map_zipWith_of_kept declaration_fillComment
  rw [length_foundBeside, List.length_map]

/-- What a row gets: what is found in its window, where its comment is empty. -/
theorem getElem?_attachInline (lines : List Line) {rows : List ParameterRow} {i : Nat}
    {row : ParameterRow} (here : rows[i]? = some row) :
    (attachInline lines rows)[i]? = some { row with
      comment := row.comment.filled
        (besideAt lines (rows.map (·.declaration)) i row.declaration.line) } := by
  have declared : (rows.map (·.declaration))[i]? = some row.declaration := by
    rw [List.getElem?_map, here]
    rfl
  rw [attachInline_eq_zipWith, List.getElem?_zipWith, here, getElem?_foundBeside declared,
    ← fillComment_eq]

theorem attachInline_attachInline (lines : List Line) (rows : List ParameterRow) :
    attachInline lines (attachInline lines rows) = attachInline lines rows := by
  apply List.ext_getElem?
  intro i
  rw [attachInline_eq_zipWith lines (attachInline lines rows), declarations_attachInline,
    attachInline_eq_zipWith]
  cases here : rows[i]? with
  | none => simp [List.getElem?_zipWith, here]
  | some row =>
      cases beside : (foundBeside lines (rows.map (·.declaration)))[i]? with
      | none => simp [List.getElem?_zipWith, here, beside]
      | some found =>
          simp [List.getElem?_zipWith, here, beside, fillComment_eq, filled_filled]

/-- The pass keeps declarations and all filled columns. A row gets the same comment in two
lists and from two sources in which the row's comment and line, the line before it and the
lines in its reach are the same. A second pass changes nothing. -/
theorem attachInline_local_and_stable :
    (∀ (lines : List Line) (rows : List ParameterRow),
      (attachInline lines rows).map (·.declaration) = rows.map (·.declaration) ∧
      ∀ (i : Nat) (row : ParameterRow), rows[i]? = some row →
        ∃ comment, (attachInline lines rows)[i]? = some { row with comment } ∧
          comment.Keeps row.comment) ∧
    (∀ (rows others : List ParameterRow) (lines otherLines : List Line) (i j : Nat)
        (row other : ParameterRow), rows[i]? = some row → others[j]? = some other →
      row.comment = other.comment → row.declaration.line = other.declaration.line →
      lineBefore (rows.map (·.declaration)) i = lineBefore (others.map (·.declaration)) j →
      (∀ line, InReach (lineBefore (rows.map (·.declaration)) i) row.declaration.line line →
        lines[line - 1]? = otherLines[line - 1]?) →
      ∃ comment, (attachInline lines rows)[i]? = some { row with comment } ∧
        (attachInline otherLines others)[j]? = some { other with comment }) ∧
    ∀ (lines : List Line) (rows : List ParameterRow),
      attachInline lines (attachInline lines rows) = attachInline lines rows := by
  refine ⟨fun lines rows => ⟨declarations_attachInline lines rows, ?_⟩, ?_,
    attachInline_attachInline⟩
  · intro i row here
    exact ⟨_, getElem?_attachInline lines here, keeps_filled row.comment _⟩
  · intro rows others lines otherLines i j row other here there comment line before agree
    refine ⟨_, getElem?_attachInline lines here, ?_⟩
    have same : besideAt lines (rows.map (·.declaration)) i row.declaration.line =
        besideAt otherLines (others.map (·.declaration)) j other.declaration.line := by
      rw [besideAt, besideAt, ← before, ← line, declarationWindow_congr agree]
    rw [getElem?_attachInline otherLines there, same, comment]

def treasurer : ParameterRow where
  declaration := ⟨"treasurer", "Fund", "Fund", "address", "address", none, 4, ""⟩
  comment := { description := "Set earlier" }

def fundRows (first : String) : List ParameterRow :=
  [{ declaration := ⟨first, "Fund", "Fund", "uint256", "uint", none, 2, "public"⟩ }, treasurer]

def fundLines : List Line :=
  ["abstract contract Fund", "  uint256 public total;", "  // Holds the keys.",
    "  address treasurer; // elected", ""].map String.toList

def poolLines : List Line :=
  ["contract Fund is Pool", "  uint256 public shares; // of all members",
    "  // Holds the keys.", "  address treasurer; // elected", "  // Ends here.", ""].map
    String.toList

theorem agree_of_inReach_treasurer {line : Nat} (seen : InReach 2 4 line) :
    fundLines[line - 1]? = poolLines[line - 1]? := by
  obtain ⟨_, after, upTo⟩ := seen
  obtain rfl | rfl : line = 3 ∨ line = 4 := by omega
  · simp [fundLines, poolLines]
  · simp [fundLines, poolLines]

theorem attachInline_fund :
    (∃ comment, (attachInline fundLines (fundRows "total"))[1]? = some { treasurer with comment } ∧
      comment.Keeps treasurer.comment) ∧
    ∃ comment, (attachInline fundLines (fundRows "total"))[1]? = some { treasurer with comment } ∧
      (attachInline poolLines (fundRows "shares"))[1]? = some { treasurer with comment } :=
  ⟨(attachInline_local_and_stable.1 fundLines (fundRows "total")).2 1 treasurer rfl,
    attachInline_local_and_stable.2.1 _ _ _ _ 1 1 treasurer treasurer rfl rfl rfl rfl rfl
      fun _ seen => agree_of_inReach_treasurer seen⟩

end Comment
end ContractTables
