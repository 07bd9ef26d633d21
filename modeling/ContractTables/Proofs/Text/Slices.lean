import ContractTables.Proofs.Text.ByteOrder
import ContractTables.Text.Search

/-!
Parts of lists and texts by position, with every access checked. Positions in a text count
its UTF-8 bytes, and a slice begins and ends where a character does. What reads beyond the
end, has its ends in the wrong order or cuts a character is an error.
-/
namespace ContractTables

inductive OutOfRange where
  | item (place length : Nat)
  | part (first last length : Nat)
  | difference (whole removed : Nat)
  deriving DecidableEq, Repr

namespace Checked

open Text

def minus (whole removed : Nat) : Except OutOfRange Nat :=
  if removed ≤ whole then .ok (whole - removed) else .error (.difference whole removed)

def minusOrZero (whole removed : Nat) : Except OutOfRange Nat :=
  if whole < removed then .ok 0 else minus whole removed

theorem minusOrZero_eq (whole removed : Nat) :
    minusOrZero whole removed = .ok (whole - removed) := by
  rw [minusOrZero, minus]
  split
  · next below => rw [Nat.sub_eq_zero_of_le (Nat.le_of_lt below)]
  · next enough => rw [if_pos (Nat.le_of_not_lt enough)]

section Lists

variable {α : Type}

def item (items : List α) (place : Nat) : Except OutOfRange α :=
  match items[place]? with
  | some found => .ok found
  | none => .error (.item place items.length)

def rewrite (items : List α) (place : Nat) (change : α → α) : Except OutOfRange (List α) := do
  let found ← item items place
  .ok (items.set place (change found))

def part (items : List α) (first last : Nat) : Except OutOfRange (List α) :=
  if first ≤ last ∧ last ≤ items.length then .ok ((items.take last).drop first)
  else .error (.part first last items.length)

theorem item_append (before : List α) (here : α) (after : List α) :
    item (before ++ here :: after) before.length = .ok here := by
  simp [item]

theorem rewrite_append (before : List α) (here : α) (after : List α) (change : α → α) :
    rewrite (before ++ here :: after) before.length change =
      .ok (before ++ change here :: after) := by
  rw [rewrite, item_append]
  simp [bind, Except.bind]

end Lists

/-! Texts. -/

def byteLength (text : List Char) : Nat := (bytes (String.ofList text)).length

theorem byteLength_eq (text : List Char) :
    byteLength text = (text.flatMap String.utf8EncodeChar).length := by
  rw [byteLength, bytes_eq_flatMap, String.toList_ofList]

@[simp] theorem byteLength_nil : byteLength [] = 0 := by
  rw [byteLength_eq, List.flatMap_nil, List.length_nil]

@[simp] theorem byteLength_cons (c : Char) (text : List Char) :
    byteLength (c :: text) = c.utf8Size + byteLength text := by
  rw [byteLength_eq, byteLength_eq, List.flatMap_cons, List.length_append,
    String.length_utf8EncodeChar]

@[simp] theorem byteLength_append (front back : List Char) :
    byteLength (front ++ back) = byteLength front + byteLength back := by
  rw [byteLength_eq, byteLength_eq, byteLength_eq, List.flatMap_append, List.length_append]

def cutAt? : Nat → List Char → Option (List Char × List Char)
  | 0, text => some ([], text)
  | _ + 1, [] => none
  | n + 1, c :: rest =>
      if c.utf8Size ≤ n + 1 then
        (cutAt? (n + 1 - c.utf8Size) rest).map fun (before, after) => (c :: before, after)
      else none

def slice (text : List Char) (first last : Nat) : Except OutOfRange (List Char) :=
  match cutAt? last text with
  | none => .error (.part first last (byteLength text))
  | some (front, _) =>
      match cutAt? first front with
      | none => .error (.part first last (byteLength text))
      | some (_, piece) => .ok piece

theorem cutAt?_byteLength (before after : List Char) :
    cutAt? (byteLength before) (before ++ after) = some (before, after) := by
  induction before with
  | nil => rw [byteLength_nil, List.nil_append, cutAt?]
  | cons c before ih =>
      obtain ⟨n, size⟩ : ∃ n, byteLength (c :: before) = n + 1 :=
        Nat.exists_eq_add_one.mpr (by have := c.utf8Size_pos; simp; omega)
      have left : n + 1 - c.utf8Size = byteLength before := by
        rw [← size, byteLength_cons, Nat.add_sub_cancel_left]
      have fits : c.utf8Size ≤ n + 1 := by
        rw [← size, byteLength_cons]
        exact Nat.le_add_right _ _
      rw [size, List.cons_append, cutAt?, if_pos fits, left, ih]
      rfl

theorem cutAt?_eq_some_iff {n : Nat} {text before after : List Char} :
    cutAt? n text = some (before, after) ↔ text = before ++ after ∧ byteLength before = n := by
  constructor
  · intro cut
    induction text generalizing n before with
    | nil =>
        cases n with
        | zero => simp_all [cutAt?]
        | succ n => simp [cutAt?] at cut
    | cons c rest ih =>
        cases n with
        | zero =>
            obtain ⟨rfl, rfl⟩ : [] = before ∧ c :: rest = after := by simpa [cutAt?] using cut
            exact ⟨rfl, byteLength_nil⟩
        | succ n =>
            rw [cutAt?] at cut
            split at cut
            · next fits =>
                obtain ⟨⟨front, back⟩, found, same⟩ := Option.map_eq_some_iff.mp cut
                obtain ⟨rfl, rfl⟩ : c :: front = before ∧ back = after := by simpa using same
                obtain ⟨rfl, size⟩ := ih found
                refine ⟨rfl, ?_⟩
                rw [byteLength_cons, size]
                omega
            · cases cut
  · rintro ⟨rfl, rfl⟩
    exact cutAt?_byteLength before after

/-- A slice is given exactly if its ends are in order, inside of the text and between
characters. -/
theorem slice_eq_ok_iff {text piece : List Char} {first last : Nat} :
    slice text first last = .ok piece ↔
      ∃ before after, text = before ++ piece ++ after ∧ byteLength before = first ∧
        byteLength (before ++ piece) = last := by
  constructor
  · intro sliced
    rw [slice] at sliced
    split at sliced
    · cases sliced
    · next front after outer =>
        split at sliced
        · cases sliced
        · next before found inner =>
            obtain rfl : found = piece := Except.ok.inj sliced
            obtain ⟨rfl, size⟩ := cutAt?_eq_some_iff.mp outer
            obtain ⟨rfl, first_size⟩ := cutAt?_eq_some_iff.mp inner
            exact ⟨before, after, rfl, first_size, size⟩
  · rintro ⟨before, after, rfl, rfl, rfl⟩
    rw [slice, cutAt?_byteLength]
    simp only [cutAt?_byteLength]

example : slice "é/**".toList 0 2 = .ok "é".toList := rfl
example : slice "é/**".toList 1 3 = .error (.part 1 3 5) := rfl

def find? (mark text : List Char) : Option Nat :=
  (cutFirst? mark text).map fun (before, _) => byteLength before

def findLast? (mark text : List Char) : Option Nat :=
  (cutLast? mark text).map fun (before, _) => byteLength before

end Checked
end ContractTables
