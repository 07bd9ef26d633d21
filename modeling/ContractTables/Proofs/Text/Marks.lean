import ContractTables.Text.Line
import ContractTables.Text.Search

/-!
Occurrences of a mark. A cut at the first occurrence leaves none before it and a cut at the
last one leaves none behind it. A mark stands in pieces that are joined by a character which it
does not have exactly if it stands in one of them.
-/
namespace ContractTables.Text

theorem dropEndMark?_eq_some_iff {mark text body : List Char} :
    dropEndMark? mark text = some body ↔ text = body ++ mark := by
  rw [dropEndMark?, Option.map_eq_some_iff]
  constructor
  · rintro ⟨rest, dropped, rfl⟩
    have reversed := congrArg List.reverse (dropMark?_eq_some_iff.mp dropped)
    simpa using reversed
  · rintro rfl
    exact ⟨body.reverse, dropMark?_eq_some_iff.mpr (by simp), List.reverse_reverse body⟩

theorem cutLast?_eq_none_iff {mark text : List Char} :
    cutLast? mark text = none ↔ occurs mark text = false := by
  induction text with
  | nil => cases mark <;> simp [cutLast?, occurs]
  | cons c rest ih =>
      rw [cutLast?, occurs, startsWith]
      cases later : cutLast? mark rest with
      | some found =>
          have inside : occurs mark rest = true := by
            rw [← Bool.not_eq_false, ← ih, later]
            exact Option.some_ne_none found
          simp [inside]
      | none => simp [ih.mp later]

/-- Behind the first character of the last occurrence there is no other one. -/
theorem occurs_behind_cutLast? {m : Char} {mark text before after : List Char}
    (cut : cutLast? (m :: mark) text = some (before, after)) :
    occurs (m :: mark) (mark ++ after) = false := by
  induction text generalizing before with
  | nil => simp [cutLast?] at cut
  | cons c rest ih =>
      rw [cutLast?] at cut
      cases later : cutLast? (m :: mark) rest with
      | some found =>
          rw [later] at cut
          cases cut
          exact ih later
      | none =>
          rw [later] at cut
          obtain ⟨_, dropped, same⟩ := Option.map_eq_some_iff.mp cut
          cases same
          have whole := dropMark?_eq_some_iff.mp dropped
          cases whole
          exact cutLast?_eq_none_iff.mp later

/-- A mark is the last one if there is none behind its first character. -/
theorem cutLast?_mark {m : Char} {mark after : List Char}
    (last : occurs (m :: mark) (mark ++ after) = false) (before : List Char) :
    cutLast? (m :: mark) (before ++ (m :: mark ++ after)) = some (before, after) := by
  induction before with
  | nil =>
      have behind : cutLast? (m :: mark) (mark ++ after) = none :=
        cutLast?_eq_none_iff.mpr last
      have here : dropMark? (m :: mark) (m :: (mark ++ after)) = some after :=
        dropMark?_eq_some_iff.mpr rfl
      rw [List.nil_append, List.cons_append, cutLast?, behind]
      simp only [here, Option.map_some]
  | cons c before ih => rw [List.cons_append, cutLast?, ih]

theorem occurs_of_append {mark front back : List Char} (inside : occurs mark back) :
    occurs mark (front ++ back) := by
  rw [occurs_iff] at inside ⊢
  exact inside.trans (List.suffix_append front back).isInfix

theorem occurs_before_cutFirst? {mark text before after : List Char} (filled : mark ≠ [])
    (cut : cutFirst? mark text = some (before, after)) : occurs mark before = false := by
  induction text generalizing before with
  | nil =>
      cases mark with
      | nil => exact absurd rfl filled
      | cons m mark => simp [cutFirst?] at cut
  | cons c rest ih =>
      rw [cutFirst?] at cut
      cases dropped : dropMark? mark (c :: rest) with
      | some found =>
          rw [dropped] at cut
          cases cut
          cases mark with
          | nil => exact absurd rfl filled
          | cons m mark => rfl
      | none =>
          rw [dropped] at cut
          obtain ⟨⟨front, behind⟩, found, same⟩ := Option.map_eq_some_iff.mp cut
          cases same
          have absent : startsWith mark (c :: front) = false := by
            rw [← Bool.not_eq_true, startsWith_iff]
            intro begins
            have whole : c :: front <+: c :: rest := by
              rw [cutFirst?_eq_append found, List.append_assoc]
              exact List.prefix_append (c :: front) _
            have starts : startsWith mark (c :: rest) := startsWith_iff.mpr (begins.trans whole)
            rw [startsWith, dropped] at starts
            cases starts
          rw [occurs, absent, ih found, Bool.or_false]

/-! Marks in pieces. -/

section Pieces

variable {mark : List Char} {gap : Char} (apart : gap ∉ mark)

include apart

theorem startsWith_append_gap (front rest : List Char) :
    startsWith mark (front ++ gap :: rest) = startsWith mark front := by
  induction mark generalizing front with
  | nil => rfl
  | cons m mark ih =>
      rw [List.mem_cons, not_or] at apart
      cases front with
      | nil => simp [startsWith, dropMark?, Ne.symm apart.1]
      | cons c front =>
          by_cases same : m = c
          · simpa [startsWith, dropMark?, same] using ih apart.2 front
          · simp [startsWith, dropMark?, same]

/-- A mark stands on one side of a character that it does not have. -/
theorem occurs_append_gap (filled : mark ≠ []) (front rest : List Char) :
    occurs mark (front ++ gap :: rest) = (occurs mark front || occurs mark rest) := by
  induction front with
  | nil =>
      have absent := startsWith_append_gap apart [] rest
      obtain ⟨m, letters, rfl⟩ := List.exists_cons_of_ne_nil filled
      simp only [List.nil_append] at absent
      simp only [List.nil_append, occurs, absent]
      rfl
  | cons c front ih =>
      rw [List.cons_append, occurs, occurs, ih, ← List.cons_append,
        startsWith_append_gap apart, Bool.or_assoc]

theorem occurs_intercalate (filled : mark ≠ []) (pieces : List (List Char)) :
    occurs mark ([gap].intercalate pieces) = pieces.any (occurs mark) := by
  induction pieces with
  | nil =>
      obtain ⟨m, letters, rfl⟩ := List.exists_cons_of_ne_nil filled
      rfl
  | cons piece pieces ih =>
      cases pieces with
      | nil => simp
      | cons next pieces =>
          rw [List.intercalate_cons_cons, List.append_assoc, List.singleton_append,
            occurs_append_gap apart filled, ih]
          rfl

end Pieces

theorem occurs_unlines {mark : List Char} (noBreak : '\n' ∉ mark) (filled : mark ≠ [])
    (lines : List Line) : occurs mark (unlines lines) = lines.any (occurs mark) :=
  occurs_intercalate noBreak filled lines

end ContractTables.Text
