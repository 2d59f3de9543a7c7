/-!
# `TableSpec.Text.CodeRange` — classes of characters as ranges of code points

A character property of Unicode is kept as the list of the code point ranges that have it, in
increasing order.

## Contents
- `CodeRange`: first and last code point of a range, both included.
- `CodeRange.holds`: whether a character lies in some range of a list.
-/

namespace TableSpec

/-- First and last code point of a range. -/
abbrev CodeRange := Nat × Nat

namespace CodeRange

/-- Whether some range of the list holds `n`. The ranges increase, so the search ends at the first
    one that begins after `n`. -/
def holdsCode (n : Nat) : List CodeRange → Bool
  | [] => false
  | (first, last) :: rest => if n < first then false else n ≤ last || holdsCode n rest

/-- Whether some range of an increasing list holds the character `c`. -/
def holds (ranges : List CodeRange) (c : Char) : Bool := holdsCode c.toNat ranges

end CodeRange
end TableSpec
