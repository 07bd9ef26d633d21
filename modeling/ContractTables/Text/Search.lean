/-!
Finding one text inside another. A text is cut at its first or last occurrence of a
mark into what stands before and what stands after, so callers never handle offsets;
the pieces and the mark always give the text back.
-/
namespace ContractTables.Text

def dropMark? : List Char → List Char → Option (List Char)
  | [], text => some text
  | _ :: _, [] => none
  | m :: mark, c :: text => if m = c then dropMark? mark text else none

def startsWith (mark text : List Char) : Bool := (dropMark? mark text).isSome

def occurs (mark : List Char) : List Char → Bool
  | [] => mark.isEmpty
  | c :: rest => startsWith mark (c :: rest) || occurs mark rest

def cutFirst? (mark : List Char) : List Char → Option (List Char × List Char)
  | [] => if mark.isEmpty then some ([], []) else none
  | c :: rest =>
      match dropMark? mark (c :: rest) with
      | some after => some ([], after)
      | none => (cutFirst? mark rest).map fun (before, after) => (c :: before, after)

def cutLast? (mark : List Char) : List Char → Option (List Char × List Char)
  | [] => if mark.isEmpty then some ([], []) else none
  | c :: rest =>
      match cutLast? mark rest with
      | some (before, after) => some (c :: before, after)
      | none => (dropMark? mark (c :: rest)).map fun after => ([], after)

def dropEndMark? (mark text : List Char) : Option (List Char) :=
  (dropMark? mark.reverse text.reverse).map List.reverse

theorem dropMark?_eq_some_iff {mark text rest : List Char} :
    dropMark? mark text = some rest ↔ text = mark ++ rest := by
  induction mark generalizing text with
  | nil => simp [dropMark?]
  | cons m mark ih =>
      cases text with
      | nil => simp [dropMark?]
      | cons c text =>
          by_cases same : m = c
          · simp [dropMark?, same, ih]
          · simp [dropMark?, same, Ne.symm same]

theorem startsWith_iff {mark text : List Char} : startsWith mark text ↔ mark <+: text := by
  rw [startsWith, Option.isSome_iff_exists]
  exact exists_congr fun rest => dropMark?_eq_some_iff.trans eq_comm

theorem occurs_iff {mark text : List Char} : occurs mark text ↔ mark <:+: text := by
  induction text with
  | nil => simp [occurs]
  | cons c rest ih => simp [occurs, startsWith_iff, ih, List.infix_cons_iff]

theorem cutFirst?_eq_append {mark text before after : List Char}
    (cut : cutFirst? mark text = some (before, after)) : text = before ++ mark ++ after := by
  induction text generalizing before with
  | nil => simp_all [cutFirst?]
  | cons c rest ih =>
      simp only [cutFirst?] at cut
      split at cut
      · next found =>
          obtain ⟨rfl, rfl⟩ : [] = before ∧ _ = after := by simpa using cut
          simpa using dropMark?_eq_some_iff.mp found
      · obtain ⟨⟨b, a⟩, next, same⟩ := Option.map_eq_some_iff.mp cut
        obtain ⟨rfl, rfl⟩ : c :: b = before ∧ a = after := by simpa using same
        simpa using ih next

theorem cutFirst?_eq_none_iff {mark text : List Char} :
    cutFirst? mark text = none ↔ occurs mark text = false := by
  induction text with
  | nil => cases mark <;> simp [cutFirst?, occurs]
  | cons c rest ih =>
      cases found : dropMark? mark (c :: rest) with
      | none => simp [cutFirst?, occurs, startsWith, found, ih]
      | some after => simp [cutFirst?, occurs, startsWith, found]

theorem cutLast?_eq_append {mark text before after : List Char}
    (cut : cutLast? mark text = some (before, after)) : text = before ++ mark ++ after := by
  induction text generalizing before with
  | nil => simp_all [cutLast?]
  | cons c rest ih =>
      simp only [cutLast?] at cut
      split at cut
      · next b a next =>
          obtain ⟨rfl, rfl⟩ : c :: b = before ∧ a = after := by simpa using cut
          simpa using ih next
      · obtain ⟨a, found, same⟩ := Option.map_eq_some_iff.mp cut
        obtain ⟨rfl, rfl⟩ : [] = before ∧ a = after := by simpa using same
        simpa using dropMark?_eq_some_iff.mp found

theorem cutLast?_of_notMem {mark : Char} {text : List Char} (absent : mark ∉ text) :
    cutLast? [mark] text = none := by
  induction text with
  | nil => rfl
  | cons c rest ih =>
      rw [List.mem_cons, not_or] at absent
      simp [cutLast?, ih absent.2, dropMark?, absent.1]

theorem cutLast?_append {mark : Char} (before : List Char) {after : List Char}
    (last : mark ∉ after) : cutLast? [mark] (before ++ mark :: after) = some (before, after) := by
  induction before with
  | nil => simp [cutLast?, cutLast?_of_notMem last, dropMark?]
  | cons c before ih => simp [cutLast?, ih]

end ContractTables.Text
