import ContractTables.Json.Basic

/-!
JSON numbers as they are written, and the values they denote. A numeral without fraction
and exponent that fits 64 bits, signed or unsigned, is a whole number; any other, and
minus zero, is a binary64 number. Its significand holds as many leading digits as fit 64
bits, and digits that no longer fit only move the power of ten.
-/
namespace ContractTables.Json

structure Numeral where
  negative : Bool
  whole : List Char
  fraction : Option (List Char)
  exponent : Option Int

namespace Numeral

def digit (c : Char) : Nat := c.toNat - '0'.toNat

/-- Extends a significand by digits while it fits; the rest of the digits is left over. -/
def absorb (significand : Nat) : List Char → Nat × List Char
  | [] => (significand, [])
  | c :: rest =>
      let next := significand * 10 + digit c
      if next ≤ maxWord then absorb next rest else (significand, c :: rest)

/-- The whole number written by the digits, if the numeral is one and it fits 64 bits. -/
def int? (n : Numeral) : Option Int :=
  let magnitude := Nat.ofDigitChars 10 n.whole 0
  match n.fraction, n.exponent, n.negative with
  | none, none, false => if magnitude ≤ maxWord then some magnitude else none
  | none, none, true =>
      if 0 < magnitude && magnitude ≤ 0x8000000000000000 then some (-magnitude) else none
  | _, _, _ => none

def float? (n : Numeral) : Option Decimal.Binary64 := do
  let (whole, dropped) := absorb 0 n.whole
  let fraction := n.fraction.getD []
  let (significand, unread) := absorb whole fraction
  let power := dropped.length - (fraction.length - unread.length : Nat) + n.exponent.getD 0
  let magnitude ← (← Decimal.Binary64.ofQuotient? significand 1).scaleByTen? power
  some (if n.negative then magnitude.negate else magnitude)

def value? (n : Numeral) : Option Json :=
  match n.int? with
  | some value => some (int value)
  | none => n.float?.map float

def splitDigits (text : List Char) : List Char × List Char :=
  (text.takeWhile Char.isDigit, text.dropWhile Char.isDigit)

def readWhole? (text : List Char) : Option (List Char × List Char) :=
  match splitDigits text with
  | ([], _) => none
  | ('0' :: _ :: _, _) => none
  | found => some found

def readFraction? : List Char → Option (Option (List Char) × List Char)
  | '.' :: text =>
      match splitDigits text with
      | ([], _) => none
      | (digits, rest) => some (some digits, rest)
  | text => some (none, text)

def readPower? (negative : Bool) (text : List Char) : Option (Option Int × List Char) :=
  match splitDigits text with
  | ([], _) => none
  | (digits, rest) =>
      let power := Nat.ofDigitChars 10 digits 0
      some (some (if negative then -power else power), rest)

def readExponent? : List Char → Option (Option Int × List Char)
  | c :: text =>
      if c = 'e' ∨ c = 'E' then
        match text with
        | '+' :: rest => readPower? false rest
        | '-' :: rest => readPower? true rest
        | rest => readPower? false rest
      else some (none, c :: text)
  | [] => some (none, [])

def read? (text : List Char) : Option (Numeral × List Char) := do
  let (negative, text) := match text with
    | '-' :: rest => (true, rest)
    | _ => (false, text)
  let (whole, text) ← readWhole? text
  let (fraction, text) ← readFraction? text
  let (exponent, text) ← readExponent? text
  some (⟨negative, whole, fraction, exponent⟩, text)

end Numeral
end ContractTables.Json
