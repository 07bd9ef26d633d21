import ContractTables.Json.Numeral

/-!
JSON documents as they are written, before strings and numbers are given a meaning:
repeated keys, escapes that are no character and numbers out of range are still there.
Reading a value returns the text behind it. Strings are read by recursion on the text;
values by recursion on a bound of steps, which twice the length of a text never exhausts.
-/
namespace ContractTables.Json

/-- A character of a string, or the 16-bit unit of a four-digit escape. -/
inductive Piece where
  | char (value : Char)
  | unit (value : Nat)

inductive Written where
  | null
  | bool (value : Bool)
  | number (numeral : Numeral)
  | string (pieces : List Piece)
  | array (items : List Written)
  | object (members : List (List Piece × Written))

def isSpace (c : Char) : Bool := c = ' ' || c = '\t' || c = '\n' || c = '\r'

def skipSpace (text : List Char) : List Char := text.dropWhile isSpace

def hexDigit? (c : Char) : Option Nat :=
  if '0' ≤ c ∧ c ≤ '9' then some (c.toNat - '0'.toNat)
  else if 'a' ≤ c ∧ c ≤ 'f' then some (c.toNat - 'a'.toNat + 10)
  else if 'A' ≤ c ∧ c ≤ 'F' then some (c.toNat - 'A'.toNat + 10)
  else none

def unit? (a b c d : Char) : Option Nat := do
  some ((((← hexDigit? a) * 16 + (← hexDigit? b)) * 16 + (← hexDigit? c)) * 16 + (← hexDigit? d))

def shortEscape? : Char → Option Char
  | '"' => some '"'
  | '\\' => some '\\'
  | '/' => some '/'
  | 'b' => some '\x08'
  | 'f' => some '\x0c'
  | 'n' => some '\n'
  | 'r' => some '\r'
  | 't' => some '\t'
  | _ => none

/-- Reads a string up to and including its closing quote. -/
def readPieces? : List Char → Option (List Piece × List Char)
  | [] => none
  | '"' :: rest => some ([], rest)
  | '\\' :: 'u' :: a :: b :: c :: d :: rest => do
      let unit ← unit? a b c d
      let (pieces, after) ← readPieces? rest
      some (.unit unit :: pieces, after)
  | '\\' :: e :: rest => do
      let char ← shortEscape? e
      let (pieces, after) ← readPieces? rest
      some (.char char :: pieces, after)
  | c :: rest =>
      if c.toNat < 0x20 || c = '\\' then none
      else do
        let (pieces, after) ← readPieces? rest
        some (.char c :: pieces, after)

theorem readPieces?_unit (a b c d : Char) (rest : List Char) :
    readPieces? ('\\' :: 'u' :: a :: b :: c :: d :: rest) =
      (unit? a b c d).bind fun unit =>
        (readPieces? rest).map fun (pieces, after) => (.unit unit :: pieces, after) := by
  rw [readPieces?]
  cases unit? a b c d <;> simp
  cases readPieces? rest <;> rfl

theorem readPieces?_short {e c : Char} (found : shortEscape? e = some c) (rest : List Char) :
    readPieces? ('\\' :: e :: rest) =
      (readPieces? rest).map fun (pieces, after) => (.char c :: pieces, after) := by
  rw [readPieces?]
  · simp only [found, Option.bind_eq_bind, Option.bind_some]
    cases readPieces? rest <;> rfl
  · rintro a b d f r rfl
    simp [shortEscape?] at found

theorem readPieces?_plain {c : Char} (notQuote : c ≠ '"') (notEscape : c ≠ '\\')
    (printable : 0x20 ≤ c.toNat) (rest : List Char) :
    readPieces? (c :: rest) =
      (readPieces? rest).map fun (pieces, after) => (.char c :: pieces, after) := by
  rw [readPieces?]
  · simp only [Nat.not_lt.mpr printable, notEscape, decide_false, Bool.or_self, Bool.false_eq_true,
      if_false, Option.bind_eq_bind]
    cases readPieces? rest <;> rfl
  all_goals simp_all

namespace Written

mutual
/-- Reads a value that nests at most `depth` arrays and objects. -/
def readValue? : Nat → Nat → List Char → Option (Written × List Char)
  | 0, _, _ => none
  | steps + 1, depth, text =>
      match skipSpace text with
      | 'n' :: 'u' :: 'l' :: 'l' :: rest => some (null, rest)
      | 't' :: 'r' :: 'u' :: 'e' :: rest => some (bool true, rest)
      | 'f' :: 'a' :: 'l' :: 's' :: 'e' :: rest => some (bool false, rest)
      | '"' :: rest => (readPieces? rest).map fun (pieces, after) => (string pieces, after)
      | '[' :: rest =>
          match depth, skipSpace rest with
          | 0, _ => none
          | _ + 1, ']' :: after => some (array [], after)
          | inner + 1, first =>
              (readItems? steps inner first).map fun (items, after) => (array items, after)
      | '{' :: rest =>
          match depth, skipSpace rest with
          | 0, _ => none
          | _ + 1, '}' :: after => some (object [], after)
          | inner + 1, first =>
              (readMembers? steps inner first).map fun (members, after) => (object members, after)
      | rest => (Numeral.read? rest).map fun (numeral, after) => (number numeral, after)

/-- Reads the items of an array up to and including the closing bracket. -/
def readItems? : Nat → Nat → List Char → Option (List Written × List Char)
  | 0, _, _ => none
  | steps + 1, depth, text => do
      let (item, rest) ← readValue? steps depth text
      match skipSpace rest with
      | ',' :: next =>
          let (items, after) ← readItems? steps depth next
          some (item :: items, after)
      | ']' :: after => some ([item], after)
      | _ => none

/-- Reads the members of an object up to and including the closing brace. -/
def readMembers? : Nat → Nat → List Char → Option (List (List Piece × Written) × List Char)
  | 0, _, _ => none
  | steps + 1, depth, text =>
      match skipSpace text with
      | '"' :: rest => do
          let (key, rest) ← readPieces? rest
          match skipSpace rest with
          | ':' :: rest =>
              let (value, rest) ← readValue? steps depth rest
              match skipSpace rest with
              | ',' :: next =>
                  let (members, after) ← readMembers? steps depth next
                  some ((key, value) :: members, after)
              | '}' :: after => some ([(key, value)], after)
              | _ => none
          | _ => none
      | _ => none
end

/-- Reads a text that holds one value and nothing else but space. -/
def read? (depth : Nat) (text : List Char) : Option Written := do
  let (value, rest) ← readValue? (2 * text.length + 2) depth text
  if (skipSpace rest).isEmpty then some value else none

end Written
end ContractTables.Json
