import ContractTables.Json.Load
import ContractTables.Json.Write

/-!
The compact and the indented form of a value are one form with different space: before
items, before closing marks and behind colons. Space is passed over there when a value, an
item or a member is read.
-/
namespace ContractTables.Json

/-! Space is passed over. -/

def Blank (text : List Char) : Prop := ∀ c ∈ text, isSpace c

theorem blank_takeWhile (text : List Char) : Blank (text.takeWhile isSpace) :=
  List.all_eq_true.mp List.all_takeWhile

theorem skipSpace_append {space : List Char} (blank : Blank space) (text : List Char) :
    skipSpace (space ++ text) = skipSpace text :=
  List.dropWhile_append_of_pos blank

theorem skipSpace_of_mark {c : Char} (mark : isSpace c = false) (text : List Char) :
    skipSpace (c :: text) = c :: text := by
  rw [skipSpace, List.dropWhile_cons_of_neg (by simp [mark])]

theorem skipSpace_append_mark {space : List Char} (blank : Blank space) {c : Char}
    (mark : isSpace c = false) (text : List Char) :
    skipSpace (space ++ c :: text) = c :: text := by
  rw [skipSpace_append blank, skipSpace_of_mark mark]

namespace Written

theorem readValue?_append {space : List Char} (blank : Blank space) (steps depth : Nat)
    (text : List Char) : readValue? steps depth (space ++ text) = readValue? steps depth text := by
  cases steps with
  | zero => rw [readValue?, readValue?]
  | succ steps => rw [readValue?, readValue?, skipSpace_append blank]

theorem readItems?_append {space : List Char} (blank : Blank space) (steps depth : Nat)
    (text : List Char) : readItems? steps depth (space ++ text) = readItems? steps depth text := by
  cases steps with
  | zero => rw [readItems?, readItems?]
  | succ steps => rw [readItems?, readItems?, readValue?_append blank]

theorem readMembers?_append {space : List Char} (blank : Blank space) (steps depth : Nat)
    (text : List Char) :
    readMembers? steps depth (space ++ text) = readMembers? steps depth text := by
  cases steps with
  | zero => rw [readMembers?, readMembers?]
  | succ steps => rw [readMembers?, readMembers?, skipSpace_append blank]

theorem readItems?_skipSpace (steps depth : Nat) (text : List Char) :
    readItems? steps depth (skipSpace text) = readItems? steps depth text := by
  rw [← readItems?_append (blank_takeWhile text), skipSpace, List.takeWhile_append_dropWhile]

theorem readMembers?_skipSpace (steps depth : Nat) (text : List Char) :
    readMembers? steps depth (skipSpace text) = readMembers? steps depth text := by
  rw [← readMembers?_append (blank_takeWhile text), skipSpace, List.takeWhile_append_dropWhile]

end Written

/-! The two forms are one, up to space. -/

structure Spacing where
  line : Nat → List Char
  gap : List Char
  line_blank : ∀ depth, Blank (line depth)
  gap_blank : Blank gap

namespace Spacing

mutual
def write (s : Spacing) (depth : Nat) : Json → List Char
  | null => "null".toList
  | bool value => writeBool value
  | int value => writeInt value
  | float value => floatLayout.write value
  | string value => writeString value
  | array [] => ['[', ']']
  | array items => '[' :: s.writeItems (depth + 1) items ++ s.line depth ++ [']']
  | object [] => ['{', '}']
  | object members => '{' :: s.writeMembers (depth + 1) members ++ s.line depth ++ ['}']

def writeItems (s : Spacing) (depth : Nat) : List Json → List Char
  | [] => []
  | [item] => s.line depth ++ s.write depth item
  | item :: rest => s.line depth ++ s.write depth item ++ ',' :: s.writeItems depth rest

def writeMembers (s : Spacing) (depth : Nat) : List (String × Json) → List Char
  | [] => []
  | [(key, value)] => s.line depth ++ writeString key ++ ':' :: s.gap ++ s.write depth value
  | (key, value) :: rest =>
      s.line depth ++ writeString key ++ ':' :: s.gap ++ s.write depth value ++
        ',' :: s.writeMembers depth rest
end

variable (s : Spacing) (depth : Nat)

theorem write_array {items : List Json} (nonempty : items ≠ []) :
    s.write depth (array items) =
      '[' :: (s.writeItems (depth + 1) items ++ (s.line depth ++ [']'])) := by
  rw [write, List.append_assoc, List.cons_append]
  exact nonempty

theorem write_object {members : List (String × Json)} (nonempty : members ≠ []) :
    s.write depth (object members) =
      '{' :: (s.writeMembers (depth + 1) members ++ (s.line depth ++ ['}'])) := by
  rw [write, List.append_assoc, List.cons_append]
  exact nonempty

theorem writeItems_singleton (item : Json) :
    s.writeItems depth [item] = s.line depth ++ s.write depth item := by
  rw [writeItems]

theorem writeItems_cons (item : Json) {rest : List Json} (more : rest ≠ []) :
    s.writeItems depth (item :: rest) =
      s.line depth ++ (s.write depth item ++ ',' :: s.writeItems depth rest) := by
  rw [writeItems, List.append_assoc]
  exact more

theorem writeMembers_singleton (key : String) (value : Json) :
    s.writeMembers depth [(key, value)] =
      s.line depth ++ (writeString key ++ ':' :: (s.gap ++ s.write depth value)) := by
  rw [writeMembers, List.append_assoc, List.append_assoc, List.cons_append]

theorem writeMembers_cons (key : String) (value : Json) {rest : List (String × Json)}
    (more : rest ≠ []) :
    s.writeMembers depth ((key, value) :: rest) =
      s.line depth ++ (writeString key ++
        ':' :: (s.gap ++ (s.write depth value ++ ',' :: s.writeMembers depth rest))) := by
  rw [writeMembers]
  · simp only [List.append_assoc, List.cons_append]
  · exact more

def flat : Spacing where
  line _ := []
  gap := []
  line_blank _ := List.forall_mem_nil _
  gap_blank := List.forall_mem_nil _

def lines : Spacing where
  line := newLine
  gap := [' ']
  line_blank depth := by
    intro c member
    rcases List.mem_cons.mp member with rfl | inside
    · rfl
    · rw [List.eq_of_mem_replicate inside]
      rfl
  gap_blank := by
    intro c member
    rw [List.mem_singleton.mp member]
    rfl

mutual
theorem flat_write (depth : Nat) : (value : Json) → flat.write depth value = value.compact
  | null | bool _ | int _ | float _ | string _ => by simp only [write, compact]
  | array [] => by simp only [write, compact, compactItems]; rfl
  | array (item :: rest) => by
      simp only [write, compact, flat_writeItems (depth + 1) (item :: rest)]
      simp [flat]
  | object [] => by simp only [write, compact, compactMembers]; rfl
  | object (member :: rest) => by
      simp only [write, compact, flat_writeMembers (depth + 1) (member :: rest)]
      simp [flat]

theorem flat_writeItems (depth : Nat) :
    (items : List Json) → flat.writeItems depth items = compactItems items
  | [] => by simp only [writeItems, compactItems]
  | [item] => by
      simp only [writeItems, compactItems, flat_write depth item]
      rfl
  | item :: next :: rest => by
      simp only [writeItems, compactItems, flat_write depth item,
        flat_writeItems depth (next :: rest)]
      rfl

theorem flat_writeMembers (depth : Nat) :
    (members : List (String × Json)) → flat.writeMembers depth members = compactMembers members
  | [] => by simp only [writeMembers, compactMembers]
  | [(key, value)] => by
      simp only [writeMembers, compactMembers, flat_write depth value]
      simp [flat]
  | (key, value) :: next :: rest => by
      simp only [writeMembers, compactMembers, flat_write depth value,
        flat_writeMembers depth (next :: rest)]
      simp [flat]
end

mutual
theorem lines_write (depth : Nat) : (value : Json) → lines.write depth value = value.indented depth
  | null | bool _ | int _ | float _ | string _ | array [] => by simp only [write, indented]
  | array (item :: rest) => by
      simp only [write, indented, lines_writeItems (depth + 1) (item :: rest)]
      rfl
  | object [] => by simp only [write, indented]
  | object (member :: rest) => by
      simp only [write, indented, lines_writeMembers (depth + 1) (member :: rest)]
      rfl

theorem lines_writeItems (depth : Nat) :
    (items : List Json) → lines.writeItems depth items = indentedItems depth items
  | [] => by simp only [writeItems, indentedItems]
  | [item] => by
      simp only [writeItems, indentedItems, lines_write depth item]
      rfl
  | item :: next :: rest => by
      simp only [writeItems, indentedItems, lines_write depth item,
        lines_writeItems depth (next :: rest)]
      rfl

theorem lines_writeMembers (depth : Nat) :
    (members : List (String × Json)) →
      lines.writeMembers depth members = indentedMembers depth members
  | [] => by simp only [writeMembers, indentedMembers]
  | [(key, value)] => by
      simp only [writeMembers, indentedMembers, lines_write depth value]
      simp [lines]
  | (key, value) :: next :: rest => by
      simp only [writeMembers, indentedMembers, lines_write depth value,
        lines_writeMembers depth (next :: rest)]
      simp [lines]
end

end Spacing

end ContractTables.Json
