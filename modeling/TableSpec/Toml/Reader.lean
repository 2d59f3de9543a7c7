import TableSpec.Toml.Scalar

/-!
# `TableSpec.Toml.Reader` — reading settings

Every reader takes the text from the front and tells what is left; a text that is not well formed has no
value at all.

## Contents
- `lineBody`, `blockBody`, `readString`: texts in the four kinds of quotes.
- `readKey`, `value`: keys and values.
- `ofText?`: the document of a text.
-/

namespace TableSpec
namespace Toml

/-! ## Lines -/

/-- Whether a character may stand on a line. -/
def isOnLine (c : Char) : Bool := c = '\t' || (' ' ≤ c && c ≠ '\x7f')

/-- Leave out the blanks in front. -/
def skipBlanks (cs : List Char) : List Char := cs.dropWhile (fun c => c == ' ' || c == '\t')

/-- Leave out a comment in front. -/
def skipComment (cs : List Char) : List Char :=
  match cs with
  | '#' :: rest => rest.dropWhile isOnLine
  | cs => cs

/-- What follows the end of a line. -/
def lineEnd? : List Char → Option (List Char)
  | '\n' :: rest => some rest
  | '\r' :: '\n' :: rest => some rest
  | _ => none

/-- The next line, when nothing but blanks and a comment is left on this one. -/
def nextLine? (cs : List Char) : Option (List Char) :=
  match skipComment (skipBlanks cs) with
  | [] => some []
  | rest => lineEnd? rest

/-- Leave out blanks, comments and line ends. The number bounds how many lines there may be. -/
def skipLines : Nat → List Char → List Char
  | 0, cs => cs
  | n + 1, cs =>
    let rest := skipComment (skipBlanks cs)
    match lineEnd? rest with
    | some rest => skipLines n rest
    | none => rest

/-! ## Texts -/

/-- The letters of escapes and what they stand for. -/
def letterEscapes : List (Char × Char) :=
  [('b', '\x08'), ('t', '\t'), ('n', '\n'), ('f', '\x0c'), ('r', '\r'), ('"', '"'), ('\\', '\\')]

/-- The character of an escape, from after its backslash, and what is left. -/
def readEscape : List Char → Option (Char × List Char)
  | [] => none
  | c :: cs =>
    match letterEscapes.lookup c with
    | some d => some (d, cs)
    | none =>
      if c = 'u' then (hexChar? 4 cs).map (fun d => (d, cs.drop 4))
      else if c = 'U' then (hexChar? 8 cs).map (fun d => (d, cs.drop 8))
      else none

/-- Put a character before those that have been read. -/
def before (c : Char) (r : Option (List Char × List Char)) : Option (List Char × List Char) :=
  r.map (fun r => (c :: r.1, r.2))

/-- A text on one line up to its quote. There are escapes between double quotes only. The number bounds how
    many characters there may be. -/
def lineBody (quote : Char) : Nat → List Char → Option (List Char × List Char)
  | 0, _ | _, [] => none
  | n + 1, c :: cs =>
    if c = quote then some ([], cs)
    else if c = '\\' && quote = '"' then
      (readEscape cs).bind (fun r => before r.1 (lineBody quote n r.2))
    else if isOnLine c then before c (lineBody quote n cs)
    else none

/-- Leave out blanks and line ends. -/
def skipBreaks : List Char → List Char
  | '\r' :: '\n' :: rest => skipBreaks rest
  | c :: rest => if c = ' ' || c = '\t' || c = '\n' then skipBreaks rest else c :: rest
  | [] => []

/-- What follows a backslash that joins lines. -/
def joinedLine? (cs : List Char) : Option (List Char) := (lineEnd? (skipBlanks cs)).map skipBreaks

/-- A text of several lines up to three quotes; two more may belong to the text. -/
def blockBody (quote : Char) : Nat → List Char → Option (List Char × List Char)
  | 0, _ | _, [] => none
  | n + 1, c :: cs =>
    let quotes := ((c :: cs).takeWhile (· == quote)).length
    if 3 ≤ quotes then
      let own := min (quotes - 3) 2
      some (List.replicate own quote, (c :: cs).drop (own + 3))
    else if c = '\\' && quote = '"' then
      match joinedLine? cs with
      | some rest => blockBody quote n rest
      | none => (readEscape cs).bind (fun r => before r.1 (blockBody quote n r.2))
    else if isOnLine c then before c (blockBody quote n cs)
    else (lineEnd? (c :: cs)).bind (fun rest => before '\n' (blockBody quote n rest))

/-- A text, from after its first quote. A line end right after three quotes does not count. -/
def readString (quote : Char) (cs : List Char) : Option (List Char × List Char) :=
  match cs with
  | a :: b :: rest =>
    if a = quote && b = quote then
      let rest := (lineEnd? rest).getD rest
      blockBody quote (rest.length + 1) rest
    else lineBody quote (cs.length + 1) cs
  | cs => lineBody quote (cs.length + 1) cs

/-! ## Keys -/

/-- The characters of keys without quotes. -/
def isKeyChar (c : Char) : Bool := c.isAlphanum || c == '-' || c == '_'

/-- A key without points. -/
def readSimpleKey (cs : List Char) : Option (String × List Char) :=
  match cs with
  | [] => none
  | c :: rest =>
    if c = '"' || c = '\'' then
      (lineBody c (rest.length + 1) rest).map (fun r => (String.ofList r.1, r.2))
    else
      let (key, rest) := cs.span isKeyChar
      if key.isEmpty then none else some (String.ofList key, rest)

/-- A key, and what is left after the blanks that follow it. The number bounds how many points there may
    be. -/
def readKey : Nat → List Char → Option (List String × List Char)
  | 0, _ => none
  | n + 1, cs => do
    let (key, rest) ← readSimpleKey cs
    match skipBlanks rest with
    | '.' :: rest => (readKey n (skipBlanks rest)).map (fun r => (key :: r.1, r.2))
    | rest => return ([key], rest)

/-! ## Values -/

mutual

/-- A value. The number bounds how much is in it. -/
def value : Nat → List Char → Option (Toml × List Char)
  | 0, _ | _, [] => none
  | n + 1, c :: cs =>
    if c = '"' || c = '\'' then (readString c cs).map (fun r => (string (String.ofList r.1), r.2))
    else if c = '[' then (items n cs).map (fun r => (array r.1, r.2))
    else if c = '\x7b' then
      match skipBlanks cs with
      | '\x7d' :: rest => some (table .closed [], rest)
      | cs => (members n [] cs).map (fun r => (table .closed r.1, r.2))
    else readWord (c :: cs)

/-- The values of a list up to its closing bracket. There may be a comma after the last one. -/
def items : Nat → List Char → Option (List Toml × List Char)
  | 0, _ => none
  | n + 1, cs =>
    match skipLines cs.length cs with
    | ']' :: rest => some ([], rest)
    | cs =>
      match value n cs with
      | none => none
      | some (v, rest) =>
        match skipLines rest.length rest with
        | ']' :: rest => some ([v], rest)
        | ',' :: rest => (items n rest).map (fun r => (v :: r.1, r.2))
        | _ => none

/-- The entries of a table on one line up to its closing brace, after those that there are already. -/
def members : Nat → Entries → List Char → Option (Entries × List Char)
  | 0, _, _ => none
  | n + 1, entries, cs =>
    match readKey (cs.length + 1) (skipBlanks cs) with
    | some (key, '=' :: rest) =>
      match value n (skipBlanks rest) with
      | none => none
      | some (v, rest) =>
        match define key v .header entries with
        | none => none
        | some entries =>
          match skipBlanks rest with
          | '\x7d' :: rest => some (entries, rest)
          | ',' :: rest => members n entries rest
          | _ => none
    | _ => none

end

/-! ## Documents -/

/-- A document so far, and the header that the next definitions belong to. -/
structure Draft where
  document : Entries := []
  header : List String := []

/-- A line that defines a value. -/
def readDefinition (draft : Draft) (cs : List Char) : Option (Draft × List Char) := do
  let (key, rest) ← readKey (cs.length + 1) cs
  let (v, rest) ← value (rest.length + 1) (skipBlanks (← takeMark '=' rest))
  let document ← changeAt .passed (define key v) draft.header .header draft.document
  return ({ draft with document := document }, rest)

/-- A line with the header of a table. -/
def readHeader (draft : Draft) (cs : List Char) : Option (Draft × List Char) := do
  let (header, rest) ← readKey (cs.length + 1) (skipBlanks cs)
  let rest ← takeMark ']' rest
  return (⟨← openTable header draft.document, header⟩, rest)

/-- A line with the header that tables share. -/
def readRowHeader (draft : Draft) (cs : List Char) : Option (Draft × List Char) := do
  let (header, rest) ← readKey (cs.length + 1) (skipBlanks cs)
  let rest ← takeMark ']' (← takeMark ']' rest)
  return (⟨← openRow header draft.document, header⟩, rest)

/-- A definition of any kind. -/
def readLine (draft : Draft) (cs : List Char) : Option (Draft × List Char) :=
  match cs with
  | '[' :: '[' :: rest => readRowHeader draft rest
  | '[' :: rest => readHeader draft rest
  | cs => readDefinition draft cs

/-- The definitions of the lines that are left. The number bounds how many lines there may be. -/
def readLines : Nat → Draft → List Char → Option Entries
  | _, draft, [] => some draft.document
  | 0, _, _ => none
  | n + 1, draft, cs =>
    match nextLine? cs with
    | some rest => readLines n draft rest
    | none => do
      let (draft, rest) ← readLine draft (skipBlanks cs)
      readLines n draft (← nextLine? rest)

/-- The document of a text. A mark of byte order in front does not count. -/
def ofText? (s : String) : Option Entries :=
  let cs := match s.toList with
    | '\uFEFF' :: rest => rest
    | cs => cs
  readLines (cs.length + 1) {} cs

end Toml
end TableSpec
