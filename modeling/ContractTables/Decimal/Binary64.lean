/-!
Finite binary64 numbers as exact multiples of powers of two. Every operation forms a
quotient of natural numbers and rounds it once, to the nearest number and on a tie to
the even significand; a quotient beyond the largest number has no result.
-/
namespace ContractTables.Decimal

/-- The number `significand · 2 ^ exponent`, with its sign kept apart so that zero has two. -/
structure Binary64 where
  negative : Bool
  significand : Nat
  exponent : Int
  deriving DecidableEq, Repr

namespace Binary64

def zero : Binary64 := ⟨false, 0, -1074⟩

def negate (x : Binary64) : Binary64 := { x with negative := !x.negative }

/-- Numerator and denominator of `num / den · 2 ^ shift`. -/
def shifted (num den : Nat) (shift : Int) : Nat × Nat :=
  (num * Nat.pow 2 shift.toNat, den * Nat.pow 2 (-shift).toNat)

/-- Numerator and denominator of the magnitude. -/
def magnitude (x : Binary64) : Nat × Nat := shifted x.significand 1 x.exponent

def roundToEven (num den : Nat) : Nat :=
  let floor := num / den
  let twice := 2 * (num % den)
  if twice < den then floor else if den < twice then floor + 1 else floor + floor % 2

/-- The exponent that gives `num / den` 53 significant bits, or as many as there are. -/
def exponentFor (num den : Nat) : Int :=
  -- at this exponent the quotient lies strictly between `2 ^ 52` and `2 ^ 54`
  let low : Int := (num.log2 : Int) - den.log2 - 53
  let (n, d) := shifted num den (-low)
  max (-1074) (if n / d < Nat.pow 2 53 then low else low + 1)

def ofQuotient? (num den : Nat) : Option Binary64 :=
  let exponent := exponentFor num den
  let (n, d) := shifted num den (-exponent)
  let rounded := roundToEven n d
  let (significand, exponent) :=
    if rounded = Nat.pow 2 53 then (Nat.pow 2 52, exponent + 1) else (rounded, exponent)
  if num = 0 then some zero
  else if 971 < exponent then none
  else some ⟨false, significand, exponent⟩

def times? (x y : Binary64) : Option Binary64 :=
  ofQuotient? (x.magnitude.1 * y.magnitude.1) (x.magnitude.2 * y.magnitude.2)

def over? (x y : Binary64) : Option Binary64 :=
  ofQuotient? (x.magnitude.1 * y.magnitude.2) (x.magnitude.2 * y.magnitude.1)

/-- Multiplies or divides by a power of ten, rounding that power and then the result.
Powers beyond `10 ^ 308` are no numbers: a division takes them in two steps, and a
multiplication by one has no result. -/
def scaleByTen? (x : Binary64) (power : Int) : Option Binary64 := do
  let ten (k : Int) := ofQuotient? (Nat.pow 10 k.toNat) 1
  if x.significand = 0 then some zero
  else if 308 < power then none
  else if 0 ≤ power then x.times? (← ten power)
  else if -308 ≤ power then x.over? (← ten (-power))
  else
    let small ← x.over? (← ten 308)
    if -616 ≤ power then small.over? (← ten (-power - 308)) else some zero

end Binary64
end ContractTables.Decimal
