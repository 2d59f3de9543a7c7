import TableSpec.Decimal
import TableSpec.Text.Hex

/-!
# `TableSpec.Sql.Token` — the words of a statement

Names stand between double quotes and texts between single ones; inside, the quote itself is written
twice. A character with code 0 ends a statement wherever it stands.

## Contents
- `quoted`, `readQuoted`: names and texts with their quotes.
- `Token`, `tokens?`.
-/

namespace TableSpec
namespace Sql

/-! ## Quotes -/

/-- A character inside of quotes; the quote itself is doubled. -/
def doubled (quote c : Char) : List Char := if c = quote then [quote, quote] else [c]

/-- A text with its quotes. -/
def quoted (quote : Char) (cs : List Char) : List Char :=
  quote :: (cs.flatMap (doubled quote) ++ [quote])

/-- The text up to the first quote that is not doubled, and what is left after it; the opening quote has
    been taken. -/
def readQuoted (quote : Char) : List Char → Option (List Char × List Char)
  | [] => none
  | [c] => if c = quote then some ([], []) else none
  | c :: d :: rest =>
    if c = quote then
      if d = quote then (readQuoted quote rest).map (fun r => (quote :: r.1, r.2)) else some ([], d :: rest)
    else (readQuoted quote (d :: rest)).map (fun r => (c :: r.1, r.2))

/-- What follows a quoted text may not go on with its quote. -/
def Closed (quote : Char) (rest : List Char) : Prop := rest.head? ≠ some quote

theorem readQuoted_append {quote : Char} {rest : List Char} (h : Closed quote rest) (cs : List Char) :
    readQuoted quote (cs.flatMap (doubled quote) ++ quote :: rest) = some (cs, rest) := by
  induction cs with
  | nil =>
    cases rest with
    | nil => simp [readQuoted]
    | cons d rest =>
      have hd : d ≠ quote := by simpa [Closed] using h
      simp [readQuoted, hd]
  | cons c cs ih =>
    by_cases hc : c = quote
    · subst hc
      simp [doubled, readQuoted, ih]
    · have hne : (cs.flatMap (doubled quote) ++ quote :: rest) ≠ [] := by simp
      obtain ⟨d, tail, htail⟩ := List.exists_cons_of_ne_nil hne
      simp only [List.flatMap_cons, doubled, hc, if_false, List.cons_append, List.nil_append]
      rw [htail, readQuoted]
      simp only [hc, if_false]
      rw [← htail, ih]
      rfl

/-! ## Tokens -/

/-- A word of a statement. -/
inductive Token where
  /-- A word without quotes: a keyword or a name. -/
  | word (text : String)
  /-- A name between double quotes. -/
  | name (text : String)
  /-- A text between single quotes. -/
  | text (value : String)
  /-- Bytes, as the digits that they are written with. -/
  | blob (digits : List Char)
  | number (value : Decimal)
  | mark (char : Char)
  deriving DecidableEq, Repr, Inhabited

/-- The characters that words begin with. -/
def isWordStart (c : Char) : Bool := c.isAlpha || c == '_' || 0x80 ≤ c.toNat

/-- The characters that words go on with. -/
def isWordPart (c : Char) : Bool := isWordStart c || c.isDigit || c == '$'

/-- The power of ten after the digits of a number, if there is one, and what is left. -/
def readPower (cs : List Char) : Option Int × List Char :=
  match cs with
  | e :: rest =>
    if e = 'e' || e = 'E' then
      let negative := rest.head? = some '-'
      let after := if negative || rest.head? = some '+' then rest.tail else rest
      let digits := after.takeWhile Char.isDigit
      if digits.isEmpty then (none, cs)
      else
        let n : Int := Digits.toNat digits
        (some (if negative then -n else n), after.drop digits.length)
    else (none, cs)
  | [] => (none, [])

/-- A decimal number without a sign, and what is left. -/
def readDecimal (cs : List Char) : Decimal × List Char :=
  let whole := cs.takeWhile Char.isDigit
  let rest := cs.drop whole.length
  let point := rest.head? = some '.'
  let places := if point then rest.tail.takeWhile Char.isDigit else []
  let rest := if point then rest.drop (1 + places.length) else rest
  let (power, rest) := readPower rest
  (⟨false, Digits.toNat (whole ++ places), power.getD 0 - places.length, !point && power.isNone⟩, rest)

/-- A number without a sign, decimal or hexadecimal, and what is left. -/
def readNumber (cs : List Char) : Decimal × List Char :=
  match cs with
  | '0' :: x :: rest =>
    let digits := rest.takeWhile (fun c => (hexDigit? c).isSome)
    if (x = 'x' || x = 'X') && !digits.isEmpty then
      (.ofNat ((hexNumber? digits.length 0 digits).getD 0), rest.drop digits.length)
    else readDecimal cs
  | cs => readDecimal cs

/-- The token in front, which does not begin with a blank, and what is left. -/
def readToken (c : Char) (cs : List Char) : Option (Token × List Char) :=
  if c = '"' then (readQuoted '"' cs).map (fun r => (.name (String.ofList r.1), r.2))
  else if c = '\'' then (readQuoted '\'' cs).map (fun r => (.text (String.ofList r.1), r.2))
  else if (c = 'x' || c = 'X') && cs.head? = some '\'' then do
    let (digits, rest) ← readQuoted '\'' cs.tail
    if digits.all (fun d => (hexDigit? d).isSome) && digits.length % 2 = 0 then return (.blob digits, rest)
    else none
  else if c.isDigit || (c = '.' && cs.head?.any Char.isDigit) then
    let (value, rest) := readNumber (c :: cs)
    if rest.head?.any isWordPart then none else some (.number value, rest)
  else if isWordStart c then
    some (.word (String.ofList (c :: cs.takeWhile isWordPart)), cs.dropWhile isWordPart)
  else if "(),*.;-+".toList.contains c then some (.mark c, cs)
  else none

/-- The tokens of a statement. Every token takes a character, so the number is large enough when it is the
    length of the text. -/
def readTokens : Nat → List Char → Option (List Token)
  | _, [] => some []
  | 0, _ :: _ => none
  | n + 1, c :: cs =>
    if c = ' ' || c = '\n' || c = '\t' || c = '\r' || c = '\x0c' then readTokens n cs
    else do
      let (token, rest) ← readToken c cs
      let tokens ← readTokens n rest
      return token :: tokens

/-- The tokens of a statement, if it has no character with code 0. -/
def tokens? (s : String) : Option (List Token) :=
  let cs := s.toList
  if cs.any (fun c => c.toNat == 0) then none else readTokens cs.length cs

end Sql
end TableSpec
