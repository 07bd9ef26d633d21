import Mathlib.Data.List.DropRight
import ContractTables.Text.Line
import ContractTables.Text.Search
import ContractTables.Text.Blank

/-!
What trimming leaves out. A text trimmed once stays as it is, a blank character more at
an end changes nothing, and line ends of two characters differ from those of one by such
a character only.
-/
namespace ContractTables.Text

theorem trimEnd_eq_rdropWhile (text : List Char) : trimEnd text = text.rdropWhile isBlank := rfl

@[simp] theorem trim_nil : trim [] = [] := rfl

theorem trim_isInfix (text : List Char) : trim text <:+: text :=
  (List.rdropWhile_prefix isBlank _).isInfix.trans (List.dropWhile_suffix isBlank).isInfix

theorem mem_of_mem_trim {c : Char} {text : List Char} (inside : c ∈ trim text) : c ∈ text :=
  (trim_isInfix text).subset inside

theorem trimStart_cons {c : Char} (blank : isBlank c) (text : List Char) :
    trimStart (c :: text) = trimStart text :=
  List.dropWhile_cons_of_pos blank

theorem trim_cons {c : Char} (blank : isBlank c) (text : List Char) :
    trim (c :: text) = trim text := by
  rw [trim, trim, trimStart_cons blank]

theorem trimEnd_concat {c : Char} (blank : isBlank c) (text : List Char) :
    trimEnd (text ++ [c]) = trimEnd text :=
  List.rdropWhile_concat_pos _ _ _ blank

theorem trim_concat {c : Char} (blank : isBlank c) (text : List Char) :
    trim (text ++ [c]) = trim text := by
  rw [trim, trim, trimStart, trimStart, List.dropWhile_append]
  cases kept : text.dropWhile isBlank with
  | nil => simp [blank]
  | cons first rest => simpa using trimEnd_concat blank (first :: rest)

theorem trimStart_trim (text : List Char) : trimStart (trim text) = trim text := by
  cases trimmed : trim text with
  | nil => rfl
  | cons first rest =>
      -- The first character that is left stopped the trimming at the front.
      have front : first :: rest <+: text.dropWhile isBlank := by
        rw [← trimmed]
        exact List.rdropWhile_prefix isBlank _
      obtain ⟨behind, whole⟩ := front
      have stopped : ¬ isBlank first := by
        have head := List.head?_dropWhile_not isBlank text
        rw [← whole] at head
        simpa using head
      exact List.dropWhile_cons_of_neg stopped

@[simp] theorem trim_trim (text : List Char) : trim (trim text) = trim text := by
  conv => lhs; rw [trim, trimStart_trim]
  exact List.rdropWhile_idempotent isBlank (trimStart text)

theorem trimEnd_of_trim {text : List Char} (trimmed : trim text = text) :
    trimEnd text = text := by
  have front : trimStart text = text := by
    rw [← trimmed]
    exact trimStart_trim text
  calc trimEnd text = trim text := by rw [trim, front]
    _ = text := trimmed

theorem not_isBlank_head {text : List Char} (trimmed : trim text = text) {c : Char}
    (first : text.head? = some c) : isBlank c = false := by
  have kept : text.dropWhile isBlank = text := by
    rw [← trimmed]
    exact trimStart_trim text
  have stopped := List.head?_dropWhile_not isBlank text
  rw [kept, first] at stopped
  exact stopped

theorem not_isBlank_getLast {text : List Char} (trimmed : trim text = text) {c : Char}
    (last : text.getLast? = some c) : isBlank c = false := by
  obtain ⟨front, rfl⟩ := List.getLast?_eq_some_iff.mp last
  have kept : (front ++ [c]).rdropWhile isBlank = front ++ [c] := trimEnd_of_trim trimmed
  have stopped := List.rdropWhile_eq_self_iff.mp kept (List.concat_ne_nil c front)
  rw [List.getLast_concat] at stopped
  exact Bool.eq_false_iff.mpr stopped

theorem trimEnd_append (front : List Char) {back : List Char} (filled : back ≠ [])
    (kept : trimEnd back = back) : trimEnd (front ++ back) = front ++ back := by
  apply List.rdropWhile_eq_self_iff.mpr
  intro some
  rw [List.getLast_append_of_ne_nil some filled]
  exact List.rdropWhile_eq_self_iff.mp kept filled

/-- A mark before a trimmed text keeps the blanks between them. -/
theorem trim_marked {m : Char} (plain : ¬ isBlank m) (mark : List Char) {text : List Char}
    (filled : text ≠ []) (trimmed : trim text = text) :
    trim (m :: mark ++ text) = m :: mark ++ text := by
  have start : trimStart (m :: mark ++ text) = m :: mark ++ text :=
    List.dropWhile_cons_of_neg plain
  rw [trim, start]
  exact trimEnd_append (m :: mark) filled (trimEnd_of_trim trimmed)

theorem stripBoth_eq_rdropWhile (p : Char → Bool) (text : List Char) :
    stripBoth p text = (text.dropWhile p).rdropWhile p := rfl

/-- What is stripped at the ends is of the given kind. -/
theorem exists_ends_of_stripBoth (p : Char → Bool) (text : List Char) :
    ∃ front back, text = front ++ stripBoth p text ++ back ∧
      (∀ c ∈ front, p c) ∧ ∀ c ∈ back, p c := by
  refine ⟨text.takeWhile p, (text.dropWhile p).rtakeWhile p, ?_, ?_, ?_⟩
  · rw [stripBoth_eq_rdropWhile, List.append_assoc, List.rdropWhile_append_rtakeWhile,
      List.takeWhile_append_dropWhile]
  · exact fun c member => List.mem_takeWhile_imp member
  · exact fun c member => List.mem_rtakeWhile_imp member

/-! Marks without blanks. -/

theorem dropMark?_concat {mark : List Char} {c : Char} (absent : c ∉ mark) (text : List Char) :
    dropMark? mark (text ++ [c]) = (dropMark? mark text).map (· ++ [c]) := by
  induction mark generalizing text with
  | nil => rfl
  | cons m mark ih =>
      rw [List.mem_cons, not_or] at absent
      cases text with
      | nil => simp [dropMark?, Ne.symm absent.1]
      | cons first text =>
          by_cases same : m = first
          · simpa [dropMark?, same] using ih absent.2 text
          · simp [dropMark?, same]

theorem cutFirst?_cons {m : Char} {mark : List Char} {c : Char} (other : c ≠ m)
    (text : List Char) :
    cutFirst? (m :: mark) (c :: text) =
      (cutFirst? (m :: mark) text).map fun (before, after) => (c :: before, after) := by
  rw [cutFirst?, dropMark?, if_neg (Ne.symm other)]

/-- A character that is in no mark comes after the first mark, or there is none. -/
theorem cutFirst?_concat {mark : List Char} (filled : mark ≠ []) {c : Char} (absent : c ∉ mark)
    (text : List Char) :
    cutFirst? mark (text ++ [c]) =
      (cutFirst? mark text).map fun (before, after) => (before, after ++ [c]) := by
  induction text with
  | nil =>
      have alone : dropMark? mark [c] = none := by
        have extended := dropMark?_concat absent []
        cases mark with
        | nil => exact absurd rfl filled
        | cons m mark => simpa [dropMark?] using extended
      simp [cutFirst?, alone, filled]
  | cons first rest ih =>
      rw [List.cons_append, cutFirst?, cutFirst?, ← List.cons_append, dropMark?_concat absent, ih]
      cases dropMark? mark (first :: rest) with
      | some after => rfl
      | none => cases cutFirst? mark rest <;> rfl

/-! Line ends. -/

def withReturns (text : List Char) : List Char :=
  text.flatMap fun c => if c = '\n' then ['\r', '\n'] else [c]

@[simp] theorem trim_dropReturn (line : Line) : trim (dropReturn line) = trim line := by
  by_cases returned : line.getLast? = some '\r'
  · obtain ⟨front, rfl⟩ := List.getLast?_eq_some_iff.mp returned
    rw [dropReturn, if_pos returned, List.dropLast_concat, trim_concat (by decide)]
  · rw [dropReturn, if_neg returned]

/-- Every line but the last one gets the carriage return, since only they end at a line feed. -/
theorem splitOn_withReturns (text : List Char) :
    ∃ ended last, text.splitOn '\n' = ended ++ [last] ∧
      (withReturns text).splitOn '\n' = ended.map (· ++ ['\r']) ++ [last] := by
  induction text with
  | nil => exact ⟨[], [], rfl, rfl⟩
  | cons c rest ih =>
      obtain ⟨ended, last, split, returned⟩ := ih
      by_cases feed : c = '\n'
      · subst c
        have both : withReturns ('\n' :: rest) = '\r' :: '\n' :: withReturns rest := rfl
        refine ⟨[] :: ended, last, ?_, ?_⟩
        · simp [List.splitOn_cons_eq_if_modifyHead, split]
        · simp [List.splitOn_cons_eq_if_modifyHead, both, returned]
      · have same : withReturns (c :: rest) = c :: withReturns rest := by
          simp [withReturns, feed]
        -- The character goes to the first line, which may be the last one as well.
        cases ended with
        | nil =>
            refine ⟨[], c :: last, ?_, ?_⟩
            · simp [List.splitOn_cons_eq_if_modifyHead, feed, split]
            · simp [List.splitOn_cons_eq_if_modifyHead, feed, same, returned]
        | cons first later =>
            refine ⟨(c :: first) :: later, last, ?_, ?_⟩
            · simp [List.splitOn_cons_eq_if_modifyHead, feed, split]
            · simp [List.splitOn_cons_eq_if_modifyHead, feed, same, returned]

theorem map_trim_lines_withReturns (text : List Char) :
    (lines (withReturns text)).map trim = (lines text).map trim := by
  obtain ⟨ended, last, split, returned⟩ := splitOn_withReturns text
  have dropped : ∀ line : Line, trim (dropReturn (line ++ ['\r'])) = trim (dropReturn line) := by
    intro line
    rw [trim_dropReturn, trim_dropReturn, trim_concat (by decide)]
  simp only [lines, split, returned, List.dropLast_concat, List.getLast?_concat, List.map_append,
    List.map_map, Function.comp_def, dropped]

end ContractTables.Text
