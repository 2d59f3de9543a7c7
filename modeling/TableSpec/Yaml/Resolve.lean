import TableSpec.Decimal
import TableSpec.Text.Hex

/-!
# `TableSpec.Yaml.Resolve` — what a scalar without quotes stands for

A scalar that is written without quotes stands for nothing, a truth value or a number when it is spelled
like one, and otherwise for its own text.

## Contents
- `isNull`, `flag?`, `isInteger`, `isFraction`: the spellings.
- `isText`: none of them. `count?`: the count that a spelling gives.
-/

namespace TableSpec
namespace Yaml

/-- The spellings of nothing. -/
def isNull (s : String) : Bool := s.isEmpty || ["null", "Null", "NULL", "~"].contains s

/-- The truth value that a text spells. -/
def flag? (s : String) : Option Bool :=
  if ["true", "True", "TRUE"].contains s then some true
  else if ["false", "False", "FALSE"].contains s then some false
  else none

/-- Whether the text is a sign or no sign, and then a zero followed by more digits. -/
def hasLeadingZero (cs : List Char) : Bool :=
  let digits := if cs.head? = some '-' || cs.head? = some '+' then cs.tail else cs
  match digits with
  | '0' :: c :: rest => (c :: rest).all Char.isDigit
  | _ => false

/-- The number that digits of a base spell; there has to be a digit. -/
def inBase? (base : Nat) (cs : List Char) : Option Nat :=
  if cs.isEmpty then none
  else cs.foldl (fun acc c => acc.bind fun n =>
    match hexDigit? c with
    | some d => if d < base then some (n * base + d) else none
    | none => none) (some 0)

/-- The whole number without a sign that a text spells, in decimal or after the mark of another base. -/
def whole? (cs : List Char) : Option Nat :=
  match cs with
  | '0' :: 'x' :: digits => inBase? 16 digits
  | '0' :: 'o' :: digits => inBase? 8 digits
  | '0' :: 'b' :: digits => inBase? 2 digits
  | cs => if hasLeadingZero cs then none else inBase? 10 cs

/-- The text without the plus in front. -/
def dropPlus (cs : List Char) : List Char := if cs.head? = some '+' then cs.tail else cs

/-- The count that a text spells: a whole number of at most 64 bits. -/
def count? (s : String) : Option Nat :=
  match whole? (dropPlus s.toList) with
  | some n => if n < UInt64.size then some n else none
  | none => none

/-- Whether a text spells a whole number of at most 128 bits. -/
def isInteger (s : String) : Bool :=
  match s.toList with
  | '-' :: cs => (whole? cs).any (fun n => n ≤ UInt64.size * UInt64.size / 2)
  | cs => (whole? (dropPlus cs)).any (fun n => n < UInt64.size * UInt64.size)

/-- The digits, fraction and power of a decimal number without a sign; at least one digit has to be there. -/
def decimal? (cs : List Char) : Option Decimal :=
  let whole := cs.takeWhile Char.isDigit
  let rest := cs.dropWhile Char.isDigit
  let (places, rest) := match rest with
    | '.' :: rest => (rest.takeWhile Char.isDigit, rest.dropWhile Char.isDigit)
    | rest => ([], rest)
  let value (power : Int) : Option Decimal :=
    if whole.isEmpty && places.isEmpty then none
    else some ⟨false, Digits.toNat (whole ++ places), power - places.length, false⟩
  match rest with
  | [] => value 0
  | e :: rest =>
    if e = 'e' || e = 'E' then
      let negative := rest.head? = some '-'
      let digits := if negative || rest.head? = some '+' then rest.tail else rest
      if !digits.isEmpty && digits.all Char.isDigit then
        let n : Int := Digits.toNat digits
        value (if negative then -n else n)
      else none
    else none

/-- Whether a text spells a fraction, infinity and the lack of a number included. Numbers beyond the largest
    fraction of 64 bits are none. -/
def isFraction (s : String) : Bool :=
  let cs := s.toList
  let unsigned := dropPlus cs
  let magnitude := if unsigned.head? = some '-' then unsigned.tail else unsigned
  if [".nan", ".NaN", ".NAN"].contains s then true
  else if [".inf", ".Inf", ".INF"].contains (String.ofList magnitude) then cs.head? ≠ some '+' || unsigned.head? ≠ some '-'
  else if cs.head? = some '+' && (unsigned.head? = some '+' || unsigned.head? = some '-') then false
  else if hasLeadingZero cs then false
  else (decimal? magnitude).any (fun d => !d.tooLarge)

/-- Whether a scalar without quotes stands for its own text. -/
def isText (s : String) : Bool := !(isNull s || (flag? s).isSome || isInteger s || isFraction s)

end Yaml
end TableSpec
