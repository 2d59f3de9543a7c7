import TableSpec.Yaml.Printer

/-!
# `TableSpec.Yaml.Reader` — reading YAML

The columns of a text decide its structure, so the text is read as a list of *spots*, characters with
their columns. Every reader takes spots from the front and returns what is left. What is inside a
collection has to begin at a least column, one further in than the collection.

## Contents
- `Spot`, `spots?`: the text as spots.
- Scalars: `plainScalar`, `quotedScalar`, `blockScalar`.
- `flowNode`: collections in brackets. `blockNode`: everything.
- `parse?`: the tree of a text.
-/

namespace TableSpec
namespace Yaml

/-! ## Spots -/

/-- A character with its column. -/
structure Spot where
  char : Char
  column : Nat
  deriving DecidableEq, Repr, Inhabited

/-- The text that spots make. -/
def chars (ts : List Spot) : List Char := ts.map Spot.char

/-- The text with one form of line end; the two special separators of lines are kept. -/
def unifyBreaks : List Char → List Char
  | [] => []
  | '\r' :: '\n' :: cs => '\n' :: unifyBreaks cs
  | c :: cs => (if c == '\r' || c.toNat == 0x85 then '\n' else c) :: unifyBreaks cs

/-- Number the columns, from `column` on. -/
def number : Nat → List Char → List Spot
  | _, [] => []
  | column, c :: cs => ⟨c, column⟩ :: number (if isBreak c then 0 else column + 1) cs

/-- Whether a character may be in a document at all. -/
def isReadable (c : Char) : Bool :=
  c == '\t' || c == '\r' || c.toNat == 0x85 || isPrintable c

/-- The spots of a text, without a mark of byte order in front; none if it has forbidden characters. -/
def spots? (cs : List Char) : Option (List Spot) :=
  let cs := if cs.head?.any (fun c => c.toNat == 0xFEFF) then cs.tail else cs
  if cs.all isReadable then some (number 0 (unifyBreaks cs)) else none

/-- A reader of the front of spots. -/
abbrev Scan (α : Type) := List Spot → Option (α × List Spot)

/-- Whether the text is over, or a blank or a line end is in front. -/
def gapAhead (ts : List Spot) : Bool := atGap (chars (ts.take 1))

/-- Whether a character is in front. -/
def ahead (c : Char) (ts : List Spot) : Bool := ts.head?.any (fun t => t.char == c)

/-- Whether a character and then a gap are in front. -/
def markAhead (c : Char) (ts : List Spot) : Bool := ahead c ts && gapAhead ts.tail

/-- Whether a line end is in front. -/
def breakAhead (ts : List Spot) : Bool := ts.head?.any (fun t => isBreak t.char)

/-- Whether the mark of the start or the end of a document is in front. -/
def boundaryAhead (ts : List Spot) : Bool :=
  let cs := chars (ts.take 3)
  (cs == ['-', '-', '-'] || cs == ['.', '.', '.']) && ts.head?.any (fun t => t.column == 0) &&
    gapAhead (ts.drop 3)

/-- Leave out blanks. -/
def skipSpaces (ts : List Spot) : List Spot := ts.dropWhile (fun t => t.char == ' ' || t.char == '\t')

/-- Leave out a comment. -/
def skipComment (ts : List Spot) : List Spot :=
  if ahead '#' ts then ts.dropWhile (fun t => !isBreak t.char) else ts

/-- Whether nothing but blanks and a comment is left of a line; a comment has a blank in front. -/
def restOfLine? (ts : List Spot) : Option (List Spot) :=
  let after := skipSpaces ts
  let after := if after.length < ts.length then skipComment after else after
  if after.isEmpty || breakAhead after then some after else none

/-- Go to the next character that is neither blank nor in a comment, from the start of a line on. Lines
    that hold something begin with spaces only. The number bounds how many lines there may be. -/
def nextContent : Nat → List Spot → List Spot
  | 0, ts => ts
  | n + 1, ts =>
    let after := skipComment (ts.dropWhile (fun t => t.char == ' '))
    if breakAhead after then nextContent n after.tail else after

/-- Go to the next character that is neither blank nor in a comment, from the end of a line on. -/
def nextLine (ts : List Spot) : List Spot :=
  if breakAhead ts then nextContent (ts.length + 1) ts.tail else ts

/-! ## Lines folded together -/

/-- What line ends between two parts of a scalar stand for: a single one for a space, of several the first
    one for nothing. -/
def folded : List Char → List Char
  | ['\n'] => [' ']
  | '\n' :: more => more
  | breaks => breaks

/-- Blanks and line ends in front: the line ends, and what is left. -/
def takeGap (ts : List Spot) : List Char × List Spot :=
  let gap := ts.takeWhile (fun t => t.char == ' ' || t.char == '\t' || isBreak t.char)
  ((chars gap).filter isBreak, ts.drop gap.length)

/-! ## Quoted scalars -/

/-- The rest of a scalar between single quotes. The number bounds how many characters there may be. -/
def singleQuotedBodyScan : Nat → Scan (List Char)
  | 0, _ | _, [] => none
  | n + 1, t :: ts =>
    if boundaryAhead (t :: ts) then none
    else if t.char == '\'' then
      if ahead '\'' ts then (singleQuotedBodyScan n ts.tail).map (fun r => ('\'' :: r.1, r.2))
      else some ([], ts)
    else if gapAhead (t :: ts) then
      let (breaks, rest) := takeGap (t :: ts)
      let blanks := chars ((t :: ts).takeWhile (fun u => u.char == ' ' || u.char == '\t'))
      let read := if breaks.isEmpty then blanks else folded breaks
      (singleQuotedBodyScan n rest).map (fun r => (read ++ r.1, r.2))
    else (singleQuotedBodyScan n ts).map (fun r => (t.char :: r.1, r.2))

/-- The letters of escapes and what they stand for. -/
def letterEscapes : List (Char × Nat) :=
  [('0', 0x00), ('a', 0x07), ('b', 0x08), ('t', 0x09), ('\t', 0x09), ('n', 0x0A), ('v', 0x0B), ('f', 0x0C),
   ('r', 0x0D), ('e', 0x1B), (' ', 0x20), ('"', 0x22), ('/', 0x2F), ('\\', 0x5C), ('N', 0x85), ('_', 0xA0),
   ('L', 0x2028), ('P', 0x2029)]

/-- How many digits follow the letter of an escape. -/
def digitEscapes : List (Char × Nat) := [('x', 2), ('u', 4), ('U', 8)]

/-- The character of an escape, from after the backslash. -/
def escapeScan : Scan Char
  | [] => none
  | t :: ts =>
    match letterEscapes.lookup t.char, digitEscapes.lookup t.char with
    | some code, _ => some (Char.ofNat code, ts)
    | none, some count => (hexChar? count (chars (ts.take count))).map (fun c => (c, ts.drop count))
    | none, none => none

/-- The rest of a scalar between double quotes. A backslash before a line end joins the lines. The number
    bounds how many characters there may be. -/
def doubleQuotedBodyScan : Nat → Scan (List Char)
  | 0, _ | _, [] => none
  | n + 1, t :: ts =>
    if boundaryAhead (t :: ts) then none
    else if t.char == '"' then some ([], ts)
    else if t.char == '\\' then
      if breakAhead ts then
        let (breaks, rest) := takeGap ts
        (doubleQuotedBodyScan n rest).map (fun r => (breaks.tail ++ r.1, r.2))
      else do
        let (c, rest) ← escapeScan ts
        let (cs, rest) ← doubleQuotedBodyScan n rest
        return (c :: cs, rest)
    else if gapAhead (t :: ts) then
      let (breaks, rest) := takeGap (t :: ts)
      let blanks := chars ((t :: ts).takeWhile (fun u => u.char == ' ' || u.char == '\t'))
      let read := if breaks.isEmpty then blanks else folded breaks
      (doubleQuotedBodyScan n rest).map (fun r => (read ++ r.1, r.2))
    else (doubleQuotedBodyScan n ts).map (fun r => (t.char :: r.1, r.2))

/-- A scalar in quotes, if one is in front. -/
def quotedScalar : Scan Yaml
  | [] => none
  | t :: ts =>
    let body :=
      if t.char == '\'' then singleQuotedBodyScan (ts.length + 1) ts
      else if t.char == '"' then doubleQuotedBodyScan (ts.length + 1) ts
      else none
    body.map (fun r => (text (String.ofList r.1), r.2))

/-! ## Scalars without quotes -/

/-- The marks of collections in brackets. -/
def flowMarks : List Char := [',', '[', ']', '\x7b', '\x7d']

/-- Whether a scalar without quotes may begin here. -/
def plainAhead (inFlow : Bool) (ts : List Spot) : Bool :=
  match ts with
  | [] => false
  | t :: rest =>
    if t.char == '-' then !gapAhead rest
    else if t.char == '?' || t.char == ':' then !inFlow && !gapAhead rest
    else !indicators.contains t.char && !gapAhead (t :: rest)

/-- The part of a scalar without quotes on one line, up to a colon or comment that ends it. Blanks count as
    far as something follows them. -/
def plainLine (inFlow : Bool) : List Spot → List Char × List Spot
  | [] => ([], [])
  | t :: ts =>
    if breakAhead (t :: ts) || markAhead ':' (t :: ts) || (inFlow && flowMarks.contains t.char) ||
        (inFlow && t.char == ':' && ts.head?.any (fun u => flowMarks.contains u.char)) then ([], t :: ts)
    else if t.char == ' ' || t.char == '\t' then
      let after := skipSpaces ts
      if ahead '#' after then ([], t :: ts)
      else
        let (cs, rest) := plainLine inFlow ts
        if cs.isEmpty then ([], t :: ts) else (t.char :: cs, rest)
    else
      let (cs, rest) := plainLine inFlow ts
      (t.char :: cs, rest)

/-- The further lines of a scalar without quotes, each of which begins at column `low` at least. The number
    bounds how many lines there may be. -/
def plainLines (inFlow : Bool) (low : Nat) : Nat → List Spot → List Char × List Spot
  | 0, ts => ([], ts)
  | n + 1, ts =>
    if !breakAhead (skipSpaces ts) then ([], ts)
    else
      let (breaks, rest) := takeGap ts
      let goesOn := rest.head?.any (fun t => low ≤ t.column || inFlow) && !boundaryAhead rest && !ahead '#' rest
      let (cs, after) := plainLine inFlow rest
      if goesOn && !cs.isEmpty then
        let (more, after) := plainLines inFlow low n after
        (folded breaks ++ cs ++ more, after)
      else ([], ts)

/-- A scalar without quotes. -/
def plainScalar (inFlow : Bool) (low : Nat) : Scan Yaml := fun ts =>
  if plainAhead inFlow ts then
    let (cs, rest) := plainLine inFlow ts
    let (more, rest) := plainLines inFlow low (rest.length + 1) rest
    some (ofPlain (String.ofList (cs ++ more)), rest)
  else none

/-! ## Literal and folded scalars -/

/-- What becomes of the line ends after a literal or folded scalar. -/
inductive Chomping where
  | strip
  | clip
  | keep
  deriving DecidableEq, Repr, Inhabited

/-- The header of a literal or folded scalar: a digit for the indentation and a mark for the end, in any
    order. -/
def blockHeader (cs : List Char) : Option (Option Nat × Chomping) :=
  let digit? (c : Char) : Option Nat := if '1' ≤ c && c ≤ '9' then some (Digits.value c) else none
  let mark? (c : Char) : Option Chomping :=
    if c == '-' then some .strip else if c == '+' then some .keep else none
  match cs with
  | [] => some (none, .clip)
  | [a] => ((digit? a).map (fun d => (some d, Chomping.clip))).or ((mark? a).map (fun m => (none, m)))
  | [a, b] =>
    match digit? a, mark? b, mark? a, digit? b with
    | some d, some m, _, _ => some (some d, m)
    | _, _, some m, some d => some (some d, m)
    | _, _, _, _ => none
  | _ => none

/-- Leave out spaces before column `indent`. -/
def dropIndent (indent : Nat) : List Spot → List Spot :=
  List.dropWhile (fun t => t.char == ' ' && t.column < indent)

/-- The line ends of empty lines in front, and what is left from column `indent` of the next line on. The
    number bounds how many lines there may be. -/
def emptyLines (indent : Nat) : Nat → List Spot → List Char × List Spot
  | 0, ts => ([], ts)
  | n + 1, ts =>
    match dropIndent indent ts with
    | [] => ([], [])
    | t :: rest =>
      if isBreak t.char then
        let (breaks, rest) := emptyLines indent n rest
        (t.char :: breaks, rest)
      else ([], t :: rest)

/-- The indentation that the lines in front have: that of the first line that holds something, or more if
    an empty line before it is longer. The number bounds how many lines there may be. -/
def detectIndent : Nat → Nat → List Spot → Nat
  | 0, widest, _ => widest
  | n + 1, widest, ts =>
    let line := ts.takeWhile (fun t => t.char == ' ')
    let widest := max widest line.length
    match ts.drop line.length with
    | [] => widest
    | t :: rest => if isBreak t.char then detectIndent n widest rest else widest

/-- The lines of a literal or folded scalar, joined. `pending` is the end of the line before, `blankBefore`
    whether that line began with a blank, and `breaks` the ends of empty lines since. The number bounds how
    many lines there may be. -/
def blockLines (isFolded : Bool) (chomping : Chomping) (indent : Nat) :
    Nat → Bool → List Char → List Char → List Spot → List Char × List Spot
  | 0, _, _, _, ts => ([], ts)
  | n + 1, blankBefore, pending, breaks, ts =>
    if ts.head?.any (fun t => t.column == indent) then
      let blank := ts.head?.any (fun t => t.char == ' ' || t.char == '\t')
      let joined :=
        if isFolded && pending == ['\n'] && !blankBefore && !blank then
          if breaks.isEmpty then [' '] else breaks
        else pending ++ breaks
      let line := ts.takeWhile (fun t => !isBreak t.char)
      let rest := ts.drop line.length
      let (after, rest) := emptyLines indent (rest.length + 1) rest.tail
      let pending := chars ((ts.drop line.length).take 1)
      let (more, rest) := blockLines isFolded chomping indent n blank pending after rest
      (joined ++ chars line ++ more, rest)
    else match chomping with
      | .strip => ([], ts)
      | .clip => (pending, ts)
      | .keep => (pending ++ breaks, ts)

/-- A literal or folded scalar inside a collection whose contents begin at column `low` at least. -/
def blockScalar (low : Nat) : Scan Yaml
  | [] => none
  | t :: ts =>
    if t.char == '|' || t.char == '>' then do
      let header := ts.takeWhile (fun u => !(gapAhead [u]))
      let (width, chomping) ← blockHeader (chars header)
      let rest ← restOfLine? (ts.drop header.length)
      let rest := rest.tail
      let indent := match width with
        | some width => if low = 0 then width else low - 1 + width
        | none => max (max (detectIndent (rest.length + 1) 0 rest) low) 1
      let (breaks, rest) := emptyLines indent (rest.length + 1) rest
      if rest.head?.any (fun u => u.char == '\t' && u.column < indent) then none
      else
        let (cs, rest) := blockLines (t.char == '>') chomping indent (rest.length + 1) false [] breaks rest
        return (text (String.ofList cs), rest)
    else none

/-! ## Collections in brackets -/

/-- Leave out blanks, line ends and comments. The number bounds how many lines there may be. -/
def skipFlow : Nat → List Spot → List Spot
  | 0, ts => ts
  | n + 1, ts =>
    match restOfLine? ts with
    | some (_ :: rest) => skipFlow n rest
    | some [] => []
    | none => skipSpaces ts

/-- Leave out what separates the parts of a collection in brackets; a comment may stand at the start of a
    line. -/
def skipSeparators (ts : List Spot) : List Spot :=
  let after := skipFlow (ts.length + 1) ts
  if ahead '#' after && after.length < ts.length then
    let rest := skipComment after
    skipFlow (rest.length + 1) rest
  else after

/-- Take the colon after a key in brackets. -/
def flowColon (ts : List Spot) : Option (List Spot) :=
  let after := skipSeparators ts
  if ahead ':' after then some after.tail else none

/-- Whether an entry in brackets is over. -/
def flowEnd (ts : List Spot) : Bool :=
  let after := skipSeparators ts
  ahead ',' after || ahead ']' after || ahead '\x7d' after

mutual

/-- A scalar or a collection in brackets, inside of brackets. -/
def flowNode : Nat → Scan Yaml
  | 0, _ => none
  | n + 1, ts =>
    match ts with
    | [] => none
    | t :: rest =>
      if t.char == '[' then flowItems n rest
      else if t.char == '\x7b' then flowEntries n rest
      else (quotedScalar ts).or (plainScalar true 0 ts)

/-- A value in brackets, which may be left out. -/
def flowValue : Nat → Scan Yaml
  | 0, _ => none
  | n + 1, ts => if flowEnd ts then some (nothing, ts) else flowNode n (skipSeparators ts)

/-- The items of a sequence up to its closing bracket. An item with a colon is a mapping of one entry. -/
def flowItems : Nat → Scan Yaml
  | 0, _ => none
  | n + 1, ts =>
    let ts := skipSeparators ts
    if ahead ']' ts then some (sequence [], ts.tail)
    else do
      let (item, rest) ← flowNode n ts
      let (item, rest) ← match flowColon rest with
        | some after => (flowValue n after).map (fun r => (mapping [(item, r.1)], r.2))
        | none => some (item, rest)
      let rest := skipSeparators rest
      if ahead ']' rest then return (sequence [item], rest.tail)
      else if ahead ',' rest then
        match ← flowItems n rest.tail with
        | (sequence items, rest) => return (sequence (item :: items), rest)
        | _ => none
      else none

/-- The entries of a mapping up to its closing brace. -/
def flowEntries : Nat → Scan Yaml
  | 0, _ => none
  | n + 1, ts =>
    let ts := skipSeparators ts
    if ahead '\x7d' ts then some (mapping [], ts.tail)
    else do
      let (key, rest) ← flowNode n ts
      let (value, rest) ← match flowColon rest with
        | some after => flowValue n after
        | none => some (nothing, rest)
      let rest := skipSeparators rest
      if ahead '\x7d' rest then return (mapping [(key, value)], rest.tail)
      else if ahead ',' rest then
        match ← flowEntries n rest.tail with
        | (mapping entries, rest) => return (mapping ((key, value) :: entries), rest)
        | _ => none
      else none

end

/-! ## Block collections -/

/-- A key on one line with its colon, if there is one; what follows the colon is left. -/
def simpleKey (ts : List Spot) : Option (Yaml × List Spot) := do
  let (key, rest) ← match quotedScalar ts with
    | some (key, rest) =>
      if (ts.take (ts.length - rest.length)).any (fun t => isBreak t.char) then none else some (key, rest)
    | none =>
      if plainAhead false ts then
        let (cs, rest) := plainLine false ts
        some (ofPlain (String.ofList cs), rest)
      else none
  let rest := skipSpaces rest
  if markAhead ':' rest then return (key, rest.tail) else none

/-- A scalar, or a collection in brackets, that is not on the line of a key. What follows it on its last line
    is nothing but a comment. -/
def inlineNode (low : Nat) (ts : List Spot) : Option (Yaml × List Spot) := do
  if ahead '|' ts || ahead '>' ts then blockScalar low ts
  else
    let (value, rest) ←
      if ahead '[' ts || ahead '\x7b' ts then flowNode (ts.length + 1) ts
      else (quotedScalar ts).or (plainScalar false low ts)
    let rest ← restOfLine? rest
    return (value, nextLine rest)

/-- The start of what follows a mark on its line: the rest of the line without blanks, if something is in
    it. -/
def onLine? (ts : List Spot) : Option (List Spot) :=
  match restOfLine? ts with
  | some _ => none
  | none => some (skipSpaces ts)

/-- The next line that holds something, from the rest of a line on that holds nothing. -/
def belowLine (ts : List Spot) : List Spot :=
  match restOfLine? ts with
  | some rest => nextLine rest
  | none => ts

mutual

/-- A node at the place in front, inside of a collection whose contents begin at column `low` at least. -/
def blockNode : Nat → Nat → Scan Yaml
  | 0, _, _ => none
  | n + 1, low, ts =>
    match ts with
    | [] => some (nothing, [])
    | t :: _ =>
      if t.column < low || boundaryAhead ts then some (nothing, ts)
      else if markAhead '-' ts then
        (blockItems n t.column ts).map (fun r => (sequence r.1, r.2))
      else if markAhead '?' ts || (simpleKey ts).isSome then
        (blockEntries n t.column ts).map (fun r => (mapping r.1, r.2))
      else inlineNode low ts

/-- What follows a dash, or the mark of a key or value that is not simple, at column `column`. -/
def markedNode : Nat → Nat → Scan Yaml
  | 0, _, _ => none
  | n + 1, column, ts =>
    match onLine? ts with
    | some rest => blockNode n (column + 1) rest
    | none => blockNode n (column + 1) (belowLine ts)

/-- What follows the colon of an entry whose key is at column `column`. A sequence below it may be as far out
    as the key. -/
def keyedNode : Nat → Nat → Scan Yaml
  | 0, _, _ => none
  | n + 1, column, ts =>
    match onLine? ts with
    | some rest => inlineNode (column + 1) rest
    | none =>
      let below := belowLine ts
      if below.head?.any (fun t => t.column == column) && markAhead '-' below && !boundaryAhead below then
        (blockItems n column below).map (fun r => (sequence r.1, r.2))
      else blockNode n (column + 1) below

/-- The items of a sequence at column `column`. -/
def blockItems : Nat → Nat → Scan (List Yaml)
  | 0, _, _ => none
  | n + 1, column, ts =>
    if ts.head?.any (fun t => t.column == column) && markAhead '-' ts && !boundaryAhead ts then do
      let (item, rest) ← markedNode n column ts.tail
      let (items, rest) ← blockItems n column rest
      return (item :: items, rest)
    else if ts.head?.any (fun t => column < t.column) then none
    else some ([], ts)

/-- The entries of a mapping at column `column`. -/
def blockEntries : Nat → Nat → Scan (List (Yaml × Yaml))
  | 0, _, _ => none
  | n + 1, column, ts =>
    if ts.head?.any (fun t => column < t.column) then none
    else if ts.isEmpty || ts.head?.any (fun t => t.column < column) || boundaryAhead ts then some ([], ts)
    else do
      let (entry, rest) ←
        if markAhead '?' ts then do
          let (key, rest) ← markedNode n column ts.tail
          if rest.head?.any (fun t => t.column == column) && markAhead ':' rest then
            let (value, rest) ← markedNode n column rest.tail
            some ((key, value), rest)
          else some ((key, nothing), rest)
        else do
          let (key, rest) ← simpleKey ts
          let (value, rest) ← keyedNode n column rest
          some ((key, value), rest)
      let (entries, rest) ← blockEntries n column rest
      return (entry :: entries, rest)

end

/-! ## Documents -/

/-- Leave out the mark of the start of a document; something may follow it on its line. -/
def documentStart (ts : List Spot) : List Spot :=
  if boundaryAhead ts && ahead '-' ts then
    match onLine? (ts.drop 3) with
    | some rest => rest
    | none => belowLine (ts.drop 3)
  else ts

/-- Whether nothing follows a document but the mark of its end. -/
def documentEnd (ts : List Spot) : Bool :=
  if boundaryAhead ts && ahead '.' ts then
    match restOfLine? (ts.drop 3) with
    | some rest => (nextLine rest).isEmpty
    | none => false
  else ts.isEmpty

/-- The tree of a text that holds one document. -/
def parse? (s : String) : Option Yaml := do
  let ts ← spots? s.toList
  let ts := documentStart (nextContent (ts.length + 1) ts)
  let (d, rest) ← blockNode (2 * ts.length + 2) 0 ts
  if documentEnd rest then some d else none

/-- The value that a text holds. -/
def decode {α : Type} (read : Yaml → Except Error α) (s : String) : Except Error α :=
  match parse? s with
  | some d => read d
  | none => .error .yaml

end Yaml
end TableSpec
