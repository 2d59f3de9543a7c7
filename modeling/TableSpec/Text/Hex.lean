import TableSpec.Text.Digits

/-!
# `TableSpec.Text.Hex` — numbers and characters in hexadecimal

## Contents
- `hexDigitChar`, `hexDigits`: the digits of a number, in upper case.
- `hexDigit?`, `hexNumber?`: the numbers that digits in either case spell.
- `charOfCode?`, `hexChar?`: the characters with such numbers.
-/

namespace TableSpec

/-- A hexadecimal digit in upper case. -/
def hexDigitChar (n : Nat) : Char := if n < 10 then Digits.digit n else Char.ofNat ('A'.toNat + (n - 10))

/-- The last `count` hexadecimal digits of a number. -/
def hexDigits : Nat → Nat → List Char
  | 0, _ => []
  | count + 1, n => hexDigits count (n / 16) ++ [hexDigitChar (n % 16)]

/-- The value of a hexadecimal digit, in either case. -/
def hexDigit? (c : Char) : Option Nat :=
  if '0' ≤ c ∧ c ≤ '9' then some (c.toNat - '0'.toNat)
  else if 'a' ≤ c ∧ c ≤ 'f' then some (c.toNat - 'a'.toNat + 10)
  else if 'A' ≤ c ∧ c ≤ 'F' then some (c.toNat - 'A'.toNat + 10)
  else none

/-- The number that the first `count` characters spell in hexadecimal, continuing `acc`. -/
def hexNumber? : Nat → Nat → List Char → Option Nat
  | 0, acc, _ => some acc
  | _ + 1, _, [] => none
  | count + 1, acc, c :: cs => (hexDigit? c).bind (fun d => hexNumber? count (16 * acc + d) cs)

/-- The character with a code point; surrogates and numbers beyond Unicode have none. -/
def charOfCode? (n : Nat) : Option Char :=
  if h : n.isValidChar then some (Char.ofNatAux n h) else none

theorem charOfCode?_toNat (c : Char) : charOfCode? c.toNat = some c := by
  have hvalid : c.toNat.isValidChar := c.valid
  rw [charOfCode?, dif_pos hvalid]
  rfl

/-- The character that exactly `count` hexadecimal digits name. -/
def hexChar? (count : Nat) (cs : List Char) : Option Char :=
  (hexNumber? count 0 cs).bind charOfCode?

end TableSpec
