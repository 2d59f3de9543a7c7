import TableSpec.Text.Hex
import TableSpec.Toml.Tree

/-!
# `TableSpec.Toml.Printer` — writing settings

A text is written between the quotes in which it needs no escapes, if there are such; double quotes are
preferred to single ones, and one line to several.

## Contents
- `Quotes`, `quotesFor`: the quotes that are chosen.
- `quoted`: a text with its quotes.
- `line`: a line that defines a value.
-/

namespace TableSpec
namespace Toml

/-- The kinds of quotes. -/
inductive Quotes where
  | double
  | single
  | tripleDouble
  | tripleSingle
  deriving DecidableEq, Repr, Inhabited

namespace Quotes

/-- The character of quotes. -/
def char : Quotes → Char
  | double | tripleDouble => '"'
  | single | tripleSingle => '\''

/-- Whether the text may have several lines. -/
def isTriple : Quotes → Bool
  | tripleDouble | tripleSingle => true
  | double | single => false

/-- Whether there are escapes. -/
def hasEscapes : Quotes → Bool
  | double | tripleDouble => true
  | single | tripleSingle => false

/-- The quotes at either end. -/
def mark (q : Quotes) : List Char := List.replicate (if q.isTriple then 3 else 1) q.char

end Quotes

/-- Whether a character can only be written as an escape. -/
def isControl (c : Char) : Bool := (c < ' ' && c ≠ '\t' && c ≠ '\n') || c = '\x7f'

/-- The length of the longest run of a character, given the one that is going on. -/
def longestRun (c : Char) : Nat → List Char → Nat
  | run, [] => run
  | run, d :: cs => if d = c then longestRun c (run + 1) cs else max run (longestRun c 0 cs)

/-- The quotes that a text is written with. -/
def quotesFor (cs : List Char) : Quotes :=
  let isPlain := !cs.any isControl
  let isOneLine := !cs.contains '\n'
  let hasNoEscape := !cs.contains '\\'
  let singles := longestRun '\'' 0 cs
  let doubles := longestRun '"' 0 cs
  if isPlain && hasNoEscape && doubles = 0 && isOneLine then .double
  else if isPlain && singles = 0 && isOneLine then .single
  else if isPlain && hasNoEscape && doubles ≤ 2 then .tripleDouble
  else if isPlain && singles ≤ 2 then .tripleSingle
  else if isOneLine then .double else .tripleDouble

/-- A character that is no quote, between double quotes. -/
def escapeChar (c : Char) : List Char :=
  if c = '\\' then ['\\', '\\']
  else if c = '\t' then ['\\', 't']
  else if c = '\x08' then ['\\', 'b']
  else if c = '\x0c' then ['\\', 'f']
  else if c = '\r' then ['\\', 'r']
  else if isControl c then ['\\', 'u', '0', '0', hexDigitChar (c.toNat / 16), hexDigitChar (c.toNat % 16)]
  else [c]

/-- A text between double quotes. Of quotes in a row only `most` may stand unescaped, of which `run` have
    been written. -/
def escaped (multiline : Bool) (most : Nat) : Nat → List Char → List Char
  | _, [] => []
  | run, c :: cs =>
    if c = '"' then
      if run < most then '"' :: escaped multiline most (run + 1) cs
      else '\\' :: '"' :: escaped multiline most 0 cs
    else if c = '\n' && !multiline then '\\' :: 'n' :: escaped multiline most 0 cs
    else escapeChar c ++ escaped multiline most 0 cs

/-- A text between given quotes. A text with several lines begins on a line of its own. -/
def quotedWith (q : Quotes) (cs : List Char) : List Char :=
  let start := if q.isTriple && cs.contains '\n' then ['\n'] else []
  let body := if q.hasEscapes then escaped q.isTriple (if q.isTriple then 2 else 0) 0 cs else cs
  q.mark ++ start ++ body ++ q.mark

/-- A text with its quotes. -/
def quoted (s : String) : List Char := quotedWith (quotesFor s.toList) s.toList

/-- The line that defines a value, of which the text is given. -/
def line (key : String) (value : List Char) : List Char := key.toList ++ " = ".toList ++ value ++ ['\n']

end Toml
end TableSpec
