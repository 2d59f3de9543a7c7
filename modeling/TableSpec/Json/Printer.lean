import TableSpec.Json.Tree

/-!
# `TableSpec.Json.Printer` — writing JSON

## Contents
- `quoted`: a string with its quotes.
- `pretty`: a document with an entry a line, indented by two spaces.
- `compact`: a document on one line, without blanks.
-/

namespace TableSpec
namespace Json

/-! ## Strings -/

/-- A hexadecimal digit in lower case. -/
def hexDigitChar (n : Nat) : Char := if n < 10 then Digits.digit n else Char.ofNat ('a'.toNat + (n - 10))

/-- A character as it is written in a string. -/
def escapeChar (c : Char) : List Char :=
  if c = '"' then ['\\', '"']
  else if c = '\\' then ['\\', '\\']
  else if c = '\n' then ['\\', 'n']
  else if c = '\r' then ['\\', 'r']
  else if c = '\t' then ['\\', 't']
  else if c = '\x08' then ['\\', 'b']
  else if c = '\x0c' then ['\\', 'f']
  else if c < ' ' then ['\\', 'u', '0', '0', hexDigitChar (c.toNat / 16), hexDigitChar (c.toNat % 16)]
  else [c]

/-- A string with its quotes. -/
def quoted (s : String) : List Char := '"' :: (s.toList.flatMap escapeChar ++ ['"'])

/-- The text of a document that is neither list nor object. -/
def leafChars : Json → List Char
  | bool true => "true".toList
  | bool false => "false".toList
  | number d => d.chars
  | string s => quoted s
  | null | array _ | object _ | broken _ => "null".toList

/-! ## One entry a line -/

/-- A line end, and the indentation of the next line. -/
def lineBreak (depth : Nat) : List Char := '\n' :: List.replicate (2 * depth) ' '

mutual

/-- The text of a document at a depth of nesting. -/
def prettyChars (depth : Nat) : Json → List Char
  | array [] => ['[', ']']
  | array (item :: rest) =>
    '[' :: (lineBreak (depth + 1) ++ prettyChars (depth + 1) item ++ prettyItems (depth + 1) rest ++
      lineBreak depth ++ [']'])
  | object [] => ['\x7b', '\x7d']
  | object ((key, item) :: rest) =>
    '\x7b' :: (lineBreak (depth + 1) ++ quoted key ++ ':' :: ' ' :: prettyChars (depth + 1) item ++
      prettyEntries (depth + 1) rest ++ lineBreak depth ++ ['\x7d'])
  | d => leafChars d

/-- The texts of items, each with a comma before it. -/
def prettyItems (depth : Nat) : List Json → List Char
  | [] => []
  | item :: rest => ',' :: (lineBreak depth ++ prettyChars depth item ++ prettyItems depth rest)

/-- The texts of entries, each with a comma before it. -/
def prettyEntries (depth : Nat) : List (String × Json) → List Char
  | [] => []
  | (key, item) :: rest =>
    ',' :: (lineBreak depth ++ quoted key ++ ':' :: ' ' :: prettyChars depth item ++
      prettyEntries depth rest)

end

/-- The text of a document with an entry a line. -/
def pretty (d : Json) : String := String.ofList (prettyChars 0 d)

/-! ## One line -/

mutual

/-- The text of a document without blanks. -/
def compactChars : Json → List Char
  | array [] => ['[', ']']
  | array (item :: rest) => '[' :: (compactChars item ++ compactItems rest ++ [']'])
  | object [] => ['\x7b', '\x7d']
  | object ((key, item) :: rest) =>
    '\x7b' :: (quoted key ++ ':' :: compactChars item ++ compactEntries rest ++ ['\x7d'])
  | d => leafChars d

/-- The texts of items, each with a comma before it. -/
def compactItems : List Json → List Char
  | [] => []
  | item :: rest => ',' :: (compactChars item ++ compactItems rest)

/-- The texts of entries, each with a comma before it. -/
def compactEntries : List (String × Json) → List Char
  | [] => []
  | (key, item) :: rest => ',' :: (quoted key ++ ':' :: compactChars item ++ compactEntries rest)

end

/-- The text of a document on one line. -/
def compact (d : Json) : String := String.ofList (compactChars d)

end Json

end TableSpec
