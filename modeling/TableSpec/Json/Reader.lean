import TableSpec.Json.Tree
import TableSpec.Text.Hex
import TableSpec.Text.Utf8

/-!
# `TableSpec.Json.Reader` — reading JSON

Every reader takes the text from the front and tells what is left, or that nothing is because the text
failed; then what has been read ends in a `broken` leaf.

## Contents
- `readEscape`, `stringBody`: strings. `readNumber`: numbers.
- `value`, `items`, `members`: values and what is in brackets.
- `ofText`: the tree of a text. `decode`: the value that a text holds.
-/

namespace TableSpec
namespace Json

/-- What was read, and what is left of a text that did not fail. -/
abbrev Reading (α : Type) := α × Option (List Char)

/-- A text that failed. -/
def failed (fault : JsonFault) : Reading Json := (broken fault, none)

/-- Leave out the blanks in front. -/
def skipBlanks (cs : List Char) : List Char :=
  cs.dropWhile (fun c => c == ' ' || c == '\n' || c == '\t' || c == '\r')

/-! ## Strings -/

/-- The number in the four digits of an escape, and what is left. A text with less than four bytes ends too
    early. -/
def readUnit (cs : List Char) : Except JsonFault (Nat × List Char) :=
  if byteLength (cs.take 4) < 4 then .error .truncated
  else match hexNumber? 4 0 cs with
    | some n => .ok (n, cs.drop 4)
    | none => .error .malformed

/-- The second half of a pair of units: a backslash, a `u` and a unit. -/
def readLowUnit (cs : List Char) : Except JsonFault (Nat × List Char) :=
  match cs with
  | [] => .error .truncated
  | c :: cs =>
    if c ≠ '\\' then .error .malformed
    else match cs with
      | [] => .error .truncated
      | c :: cs => if c = 'u' then readUnit cs else .error .malformed

/-- The character of an escape with digits, and what is left. Characters beyond 16 bits are written as two
    units; half of such a pair is no character. -/
def readUnicode (cs : List Char) : Except JsonFault (Char × List Char) := do
  let (unit, rest) ← readUnit cs
  if 0xD800 ≤ unit ∧ unit < 0xDC00 then
    let (low, rest) ← readLowUnit rest
    if 0xDC00 ≤ low ∧ low < 0xE000 then
      match charOfCode? (0x10000 + (unit - 0xD800) * 0x400 + (low - 0xDC00)) with
      | some c => return (c, rest)
      | none => throw .malformed
    else throw .malformed
  else match charOfCode? unit with
    | some c => return (c, rest)
    | none => throw .malformed

/-- The letters of one-letter escapes and what they stand for. -/
def letterEscapes : List (Char × Char) :=
  [('"', '"'), ('\\', '\\'), ('/', '/'), ('b', '\x08'), ('f', '\x0c'), ('n', '\n'), ('r', '\r'),
   ('t', '\t')]

/-- The character of an escape, from after its backslash, and what is left. -/
def readEscape (cs : List Char) : Except JsonFault (Char × List Char) :=
  match cs with
  | [] => .error .truncated
  | c :: cs =>
    match letterEscapes.lookup c with
    | some d => .ok (d, cs)
    | none => if c = 'u' then readUnicode cs else .error .malformed

/-- The characters of a string, from after its opening quote, and what is left after the closing one. The
    number bounds how many characters there may be. -/
def stringBody : Nat → List Char → Except JsonFault (List Char × List Char)
  | 0, _ | _, [] => .error .truncated
  | n + 1, c :: cs =>
    if c = '"' then .ok ([], cs)
    else if c = '\\' then do
      let (d, rest) ← readEscape cs
      let (ds, rest) ← stringBody n rest
      return (d :: ds, rest)
    else if c < ' ' then .error .malformed
    else do
      let (ds, rest) ← stringBody n cs
      return (c :: ds, rest)

/-- A string, from after its opening quote. -/
def readString (cs : List Char) : Except JsonFault (String × List Char) :=
  (stringBody (cs.length + 1) cs).map (fun r => (String.ofList r.1, r.2))

/-! ## Numbers -/

/-- At least one digit, and what is left. -/
def readDigits (cs : List Char) : Except JsonFault (List Char × List Char) :=
  match cs with
  | [] => .error .truncated
  | c :: _ =>
    if c.isDigit then .ok (cs.takeWhile Char.isDigit, cs.dropWhile Char.isDigit) else .error .malformed

/-- The digits of a whole number, which has no leading zeros. -/
def readWhole (cs : List Char) : Except JsonFault (List Char × List Char) := do
  let (digits, rest) ← readDigits cs
  if digits.head? = some '0' ∧ digits.length ≠ 1 then throw .malformed
  return (digits, rest)

/-- The digits after a point, if there is one. -/
def readFraction (cs : List Char) : Except JsonFault (Option (List Char) × List Char) :=
  match cs with
  | '.' :: cs => (readDigits cs).map (fun r => (some r.1, r.2))
  | cs => .ok (none, cs)

/-- The power of ten after an `e`, if there is one. -/
def readPower (cs : List Char) : Except JsonFault (Option Int × List Char) :=
  match cs with
  | e :: cs =>
    if e = 'e' ∨ e = 'E' then
      let negative := cs.head? = some '-'
      let digits := if negative ∨ cs.head? = some '+' then cs.tail else cs
      (readDigits digits).map fun r =>
        let n : Int := Digits.toNat r.1
        (some (if negative then -n else n), r.2)
    else .ok (none, e :: cs)
  | [] => .ok (none, [])

/-- A number. -/
def readNumber (cs : List Char) : Except JsonFault (Decimal × List Char) := do
  let negative := cs.head? = some '-'
  let (whole, rest) ← readWhole (if negative then cs.tail else cs)
  let (fraction, rest) ← readFraction rest
  let (power, rest) ← readPower rest
  let places := fraction.getD []
  return (⟨negative, Digits.toNat (whole ++ places), power.getD 0 - places.length,
    fraction.isNone && power.isNone⟩, rest)

/-! ## Values -/

/-- The rest of a word, which is the text of a value. -/
def readWord (word : List Char) (v : Json) (cs : List Char) : Reading Json :=
  match word, cs with
  | [], cs => (v, some cs)
  | _ :: _, [] => failed .truncated
  | w :: ws, c :: cs => if w = c then readWord ws v cs else failed .malformed

/-- A reader's answer as a leaf of the tree. -/
def leaf {α : Type} (make : α → Json) (r : Except JsonFault (α × List Char)) : Reading Json :=
  match r with
  | .ok (a, rest) => (make a, some rest)
  | .error fault => failed fault

mutual

/-- A value; values are nested at most as deep as the number says. -/
def value : Nat → List Char → Reading Json
  | 0, _ => failed .truncated
  | n + 1, cs =>
    match skipBlanks cs with
    | [] => failed .truncated
    | 'n' :: rest => readWord ['u', 'l', 'l'] null rest
    | 't' :: rest => readWord ['r', 'u', 'e'] (bool true) rest
    | 'f' :: rest => readWord ['a', 'l', 's', 'e'] (bool false) rest
    | '"' :: rest => leaf string (readString rest)
    | '[' :: rest =>
      match skipBlanks rest with
      | ']' :: rest => (array [], some rest)
      | rest =>
        let (vs, rest) := items n rest
        (array vs, rest)
    | '{' :: rest =>
      match skipBlanks rest with
      | '}' :: rest => (object [], some rest)
      | rest =>
        let (es, rest) := members n rest
        (object es, rest)
    | c :: rest =>
      if c = '-' || c.isDigit then leaf number (readNumber (c :: rest)) else failed .malformed

/-- The values of a list up to its closing bracket. -/
def items : Nat → List Char → Reading (List Json)
  | 0, _ => ([broken .truncated], none)
  | n + 1, cs =>
    match value n cs with
    | (v, none) => ([v], none)
    | (v, some rest) =>
      match skipBlanks rest with
      | [] => ([v, broken .truncated], none)
      | ']' :: rest => ([v], some rest)
      | ',' :: rest =>
        let (vs, rest) := items n rest
        (v :: vs, rest)
      | _ => ([v, broken .malformed], none)

/-- The entries of an object up to its closing brace. -/
def members : Nat → List Char → Reading (List (String × Json))
  | 0, _ => ([("", broken .truncated)], none)
  | n + 1, cs =>
    match skipBlanks cs with
    | [] => ([("", broken .truncated)], none)
    | '"' :: rest =>
      match readString rest with
      | .error fault => ([("", broken fault)], none)
      | .ok (key, rest) =>
        match skipBlanks rest with
        | [] => ([(key, broken .truncated)], none)
        | ':' :: rest =>
          match value n rest with
          | (v, none) => ([(key, v)], none)
          | (v, some rest) =>
            match skipBlanks rest with
            | [] => ([(key, v), ("", broken .truncated)], none)
            | '}' :: rest => ([(key, v)], some rest)
            | ',' :: rest =>
              let (es, rest) := members n rest
              ((key, v) :: es, rest)
            | _ => ([(key, v), ("", broken .malformed)], none)
        | _ => ([(key, broken .malformed)], none)
    | _ => ([("", broken .malformed)], none)

end

/-- The tree of a text, and what is left after it. -/
def ofChars (cs : List Char) : Reading Json := value (cs.length + 1) cs

/-- The value that a text holds, which has to be all that is in the text. -/
def decode {α : Type} (read : Json → Except Error α) (text : String) : Except Error α := do
  let (tree, rest) := ofChars text.toList
  let a ← read tree
  match rest with
  | some rest => if (skipBlanks rest).isEmpty then return a else throw (.json .malformed)
  | none => throw (.json .malformed)

end Json
end TableSpec
