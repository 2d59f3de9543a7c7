import TableSpec.Text.Digits

/-!
# `TableSpec.Decimal` — numbers as they are written

A number in a document or a query is kept as it is written: a sign, digits, and a power of ten. Whether it
was written with a point or an exponent is part of it, because a whole number and a fraction are different
things even where they are equal.

## Contents
- `Decimal`, `Decimal.ofNat`, `Decimal.count?`.
- `Decimal.chars`: a text for a number. `Decimal.tooLarge`: no 64-bit fraction is near it.
-/

namespace TableSpec

/-- A number: `significand` times ten to the power `exponent`. -/
structure Decimal where
  negative : Bool
  significand : Nat
  exponent : Int
  /-- Whether the number was written without point and exponent. -/
  whole : Bool
  deriving DecidableEq, Repr, Inhabited

namespace Decimal

/-- A whole number. -/
def ofNat (n : Nat) : Decimal := ⟨false, n, 0, true⟩

/-- The number as a count, which is a whole number of at most 64 bits without a sign. -/
def count? (d : Decimal) : Option Nat :=
  if d.whole = true ∧ d.negative = false ∧ d.significand < UInt64.size then some d.significand else none

/-- The text of a number. -/
def chars (d : Decimal) : List Char :=
  let sign := if d.negative then ['-'] else []
  let digits := Digits.ofNat d.significand
  if d.whole then sign ++ digits
  else
    let power := (if d.exponent < 0 then ['-'] else []) ++ Digits.ofNat d.exponent.natAbs
    sign ++ digits ++ 'e' :: power

/-- The least number that rounds to infinity among the fractions of 64 bits. -/
def limit : Nat := Nat.pow 2 1024 - Nat.pow 2 970

/-- Whether the number is beyond all fractions of 64 bits. A power of ten above the 308th is, unless it
    multiplies 0; a significand with fewer digits than are behind the point is not. -/
def tooLarge (d : Decimal) : Bool :=
  let power := d.exponent.natAbs
  d.significand ≠ 0 &&
    if d.exponent < 0 then power ≤ d.significand.log2 && limit * Nat.pow 10 power ≤ d.significand
    else 308 < power || limit ≤ d.significand * Nat.pow 10 power

@[simp] theorem count?_ofNat (n : Nat) : (ofNat n).count? = if n < UInt64.size then some n else none := by
  simp [ofNat, count?]

end Decimal
end TableSpec
