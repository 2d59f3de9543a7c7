import TableSpec.Decimal
import TableSpec.Text.Hex
import TableSpec.Toml.Tree

/-!
# `TableSpec.Toml.Scalar` — reading values of one word

Numbers, truth values, dates and times are words. A word reaches as far as there are letters, digits and
the marks that occur in them; a date and a time may be two words with a blank between them.

## Contents
- `isGrouped`: digits with single underscores between them.
- `integer?`, `isFraction`: numbers. `isMoment`: dates and times.
- `ofWord?`, `readWord`.
-/

namespace TableSpec
namespace Toml

/-! ## Numbers -/

/-- Whether there are digits, with single underscores only between them. -/
def isGrouped (isDigit : Char → Bool) : List Char → Bool
  | [] => false
  | [c] => isDigit c
  | c :: d :: rest => isDigit c && if d = '_' then isGrouped isDigit rest else isGrouped isDigit (d :: rest)

/-- The digits without what groups them. -/
def ungrouped (cs : List Char) : List Char := cs.filter (· ≠ '_')

/-- Whether characters are a whole number without a sign. -/
def isWhole (cs : List Char) : Bool := isGrouped Char.isDigit cs && (cs = ['0'] || cs.head? ≠ some '0')

/-- A word without its sign, and whether that is a minus. -/
def splitSign (cs : List Char) : Bool × List Char :=
  match cs with
  | '-' :: rest => (true, rest)
  | '+' :: rest => (false, rest)
  | cs => (false, cs)

/-- The value of a digit below a base. -/
def digitBelow? (base : Nat) (c : Char) : Option Nat := (hexDigit? c).filter (· < base)

/-- The number that digits spell in a base, if they are digits of it. -/
def inBase? (base : Nat) (cs : List Char) : Option Nat :=
  if isGrouped (fun c => (digitBelow? base c).isSome) cs then
    some ((ungrouped cs).foldl (fun n c => base * n + (digitBelow? base c).getD 0) 0)
  else none

/-- The whole number that a word is. -/
def whole? (cs : List Char) : Option Int :=
  match cs with
  | '0' :: 'x' :: digits => (inBase? 16 digits).map Int.ofNat
  | '0' :: 'o' :: digits => (inBase? 8 digits).map Int.ofNat
  | '0' :: 'b' :: digits => (inBase? 2 digits).map Int.ofNat
  | cs =>
    let (negative, digits) := splitSign cs
    if isWhole digits then
      let n : Int := Digits.toNat (ungrouped digits)
      some (if negative then -n else n)
    else none

/-- The whole number of 64 bits that a word is. -/
def integer? (cs : List Char) : Option Int :=
  (whole? cs).filter (fun n => decide (-0x8000000000000000 ≤ n) && decide (n < 0x8000000000000000))

/-- The part of a number that digits and underscores make, and what is left. -/
def splitDigits (cs : List Char) : List Char × List Char := cs.span (fun c => c.isDigit || c == '_')

/-- Whether a word is a fraction that a number of 64 bits can be near to; minus infinity is one. -/
def isFraction (cs : List Char) : Bool :=
  let (negative, cs) := splitSign cs
  let (whole, rest) := splitDigits cs
  let (places, rest) := match rest with
    | '.' :: rest => (some (splitDigits rest).1, (splitDigits rest).2)
    | rest => (none, rest)
  let power := match rest with
    | e :: rest => if e = 'e' || e = 'E' then some (splitSign rest) else some (false, [e])
    | [] => none
  let n : Int := Digits.toNat (ungrouped (power.elim [] Prod.snd))
  let digits := ungrouped (places.getD [])
  let value : Decimal :=
    ⟨false, Digits.toNat (ungrouped whole ++ digits), (if power.elim false Prod.fst then -n else n) - digits.length, false⟩
  cs = "inf".toList || cs = "nan".toList ||
    (isWhole whole && (places.isSome || power.isSome) && places.all (isGrouped Char.isDigit) &&
      power.all (fun p => isGrouped Char.isDigit p.2) && (negative || !value.tooLarge))

/-! ## Dates and times -/

/-- The number that `count` digits spell, and what is left. -/
def fixedDigits (count : Nat) (cs : List Char) : Option (Nat × List Char) :=
  let digits := cs.take count
  if digits.length = count && digits.all Char.isDigit then some (Digits.toNat digits, cs.drop count) else none

/-- Take a mark. -/
def takeMark (c : Char) : List Char → Option (List Char)
  | d :: rest => if c = d then some rest else none
  | [] => none

/-- How many days a month has. -/
def daysIn (year month : Nat) : Nat :=
  if month = 2 then if year % 4 = 0 && (year % 100 ≠ 0 || year % 400 = 0) then 29 else 28
  else if [4, 6, 9, 11].contains month then 30 else 31

/-- What is left after a date. -/
def afterDate (cs : List Char) : Option (List Char) := do
  let (year, cs) ← fixedDigits 4 cs
  let (month, cs) ← fixedDigits 2 (← takeMark '-' cs)
  let (day, cs) ← fixedDigits 2 (← takeMark '-' cs)
  if 1 ≤ month && month ≤ 12 && 1 ≤ day && day ≤ daysIn year month then some cs else none

/-- What is left after hours and minutes. -/
def afterMinutes (cs : List Char) : Option (List Char) := do
  let (hour, cs) ← fixedDigits 2 cs
  let (minute, cs) ← fixedDigits 2 (← takeMark ':' cs)
  if hour < 24 && minute < 60 then some cs else none

/-- What is left after a time. A minute may have a leap second. -/
def afterTime (cs : List Char) : Option (List Char) := do
  let (second, cs) ← fixedDigits 2 (← takeMark ':' (← afterMinutes cs))
  if second ≤ 60 then
    match cs with
    | '.' :: rest => if rest.head?.any Char.isDigit then some (rest.dropWhile Char.isDigit) else none
    | cs => some cs
  else none

/-- Whether characters are a place in the zones of time, or nothing. -/
def isOffset (cs : List Char) : Bool :=
  match cs with
  | [] => true
  | c :: rest =>
    if c = 'Z' || c = 'z' then rest.isEmpty else (c = '+' || c = '-') && afterMinutes rest = some []

/-- Whether characters are a time, a date, or both. -/
def isMoment (cs : List Char) : Bool :=
  afterTime cs = some [] ||
    match afterDate cs with
    | some [] => true
    | some (c :: rest) => (c = 'T' || c = 't' || c = ' ') && (afterTime rest).any isOffset
    | none => false

/-! ## Words -/

/-- The characters of words. -/
def isWordChar (c : Char) : Bool := c.isAlphanum || "+-_.:".toList.contains c

/-- The value that a word is. -/
def ofWord? (cs : List Char) : Option Toml :=
  if cs = "true".toList then some (bool true)
  else if cs = "false".toList then some (bool false)
  else match integer? cs with
    | some n => some (integer n)
    | none => if isFraction cs then some fraction else if isMoment cs then some moment else none

/-- A value of one word, or a date and a time, and what is left. -/
def readWord (cs : List Char) : Option (Toml × List Char) :=
  let (word, rest) := cs.span isWordChar
  let (next, after) := rest.tail.span isWordChar
  if afterDate word = some [] && rest.head? = some ' ' && isMoment (word ++ ' ' :: next) then some (moment, after)
  else (ofWord? word).map (fun value => (value, rest))

end Toml
end TableSpec
