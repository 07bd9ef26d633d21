import ContractTables.Decimal.Binary64

/-!
The shortest decimal that reads back as a given binary64 number, and its text. Reading
rounds to nearest, so a decimal reads back if it lies between the midpoints to the two
neighbouring numbers, where a midpoint itself counts for an even significand only. Of
the decimals with the fewest digits the nearest is taken, and on a tie the even one.
-/
namespace ContractTables.Decimal

/-- The decimal `digits · 10 ^ exponent`. -/
structure Scientific where
  digits : Nat
  exponent : Int

namespace Binary64

/-- Numerators of the two midpoints and the magnitude over one denominator. -/
def interval (x : Binary64) : Nat × Nat × Nat × Nat :=
  let (num, den) := shifted x.significand 4 x.exponent
  let unit := num / x.significand
  -- the gap below a power of two is half as wide as the gap above it
  let below := if x.significand = Nat.pow 2 52 && -1074 < x.exponent then unit else 2 * unit
  (4 * num - below, 4 * num, 4 * num + 2 * unit, den)

def readsBack (x : Binary64) (s : Scientific) : Bool :=
  let (low, _, high, den) := x.interval
  let d := s.digits * Nat.pow 10 s.exponent.toNat * den
  let scale := Nat.pow 10 (-s.exponent).toNat
  if x.significand % 2 = 0 then low * scale ≤ d && d ≤ high * scale
  else low * scale < d && d < high * scale

/-- The magnitude in units of `10 ^ exponent`, as numerator and denominator. -/
def inTens (x : Binary64) (exponent : Int) : Nat × Nat :=
  let (num, den) := x.magnitude
  (num * Nat.pow 10 (-exponent).toNat, den * Nat.pow 10 exponent.toNat)

/-- The least power of ten above the magnitude. -/
def decimalScale (x : Binary64) : Int :=
  let (num, den) := x.magnitude
  let low := (((num.log2 : Int) - den.log2 - 1) * 30103).fdiv 100000
  let below (k : Int) := let (n, d) := x.inTens k; n < d
  if below low then low else if below (low + 1) then low + 1 else low + 2

/-- The nearest decimal with `count` digits that reads back. -/
def shortestOf? (x : Binary64) (count : Nat) : Option Scientific :=
  let exponent := x.decimalScale - count
  let (num, den) := x.inTens exponent
  let floor : Scientific := ⟨num / den, exponent⟩
  let next : Scientific := ⟨num / den + 1, exponent⟩
  match x.readsBack floor, x.readsBack next with
  | true, false => some floor
  | false, true => some next
  | true, true => some ⟨roundToEven num den, exponent⟩
  | false, false => none

/-- Seventeen digits always suffice. A zero at the end comes only from a carry to the
next power of ten, and there is one at most. -/
def shortest (x : Binary64) : Scientific :=
  if x.significand = 0 then ⟨0, 0⟩ else
  let s := ((List.range 18).findSome? x.shortestOf?).getD ⟨x.magnitude.1 / x.magnitude.2, 0⟩
  if s.digits % 10 = 0 then ⟨s.digits / 10, s.exponent + 1⟩ else s

end Binary64

/-- Which powers of ten of the first digit are written without an exponent. -/
structure Layout where
  least : Int
  greatest : Int

def Layout.write (layout : Layout) (x : Binary64) : List Char :=
  let s := x.shortest
  let digits := Nat.toDigits 10 s.digits
  let lead := s.exponent + digits.length - 1
  let body :=
    if lead < layout.least || layout.greatest < lead then
      let fraction := if digits.length = 1 then [] else '.' :: digits.tail
      let sign := if lead < 0 then '-' else '+'
      digits.take 1 ++ fraction ++ 'e' :: sign :: Nat.toDigits 10 lead.natAbs
    else if lead < 0 then
      "0.".toList ++ List.replicate (lead.natAbs - 1) '0' ++ digits
    else
      let whole := lead.toNat + 1
      let fraction := digits.drop whole
      (digits ++ List.replicate s.exponent.toNat '0').take whole ++
        '.' :: (if fraction.isEmpty then ['0'] else fraction)
  if x.negative then '-' :: body else body

end ContractTables.Decimal
