import TableSpec.Text.Hex
import TableSpec.Yaml.Tree

/-!
# `TableSpec.Yaml.Printer` — writing YAML

Collections are written in block style: the entries of a mapping below each other, its values two columns
further in, the items of a sequence behind dashes. Lines are never folded.

## Contents
- `Style`, `style`: how a text has to be written, so that it reads as the same text.
- `singleQuoted`, `doubleQuoted`, `literal`: the written forms.
- `print`: the text of a document.
-/

namespace TableSpec
namespace Yaml

/-! ## Characters -/

/-- The characters that may stand in a document as they are. -/
def isPrintable (c : Char) : Bool :=
  c == '\n' || (' ' ≤ c && c.toNat ≤ 0x7E) ||
    (0xA0 ≤ c.toNat && c.toNat ≠ 0xFEFF && c.toNat ≠ 0xFFFE && c.toNat ≠ 0xFFFF)

/-- The characters that end a line. -/
def isBreak (c : Char) : Bool :=
  c == '\n' || c == '\r' || c.toNat == 0x85 || c.toNat == 0x2028 || c.toNat == 0x2029

/-- Whether the text is over, or a blank or a line end follows. -/
def atGap (cs : List Char) : Bool :=
  match cs with
  | [] => true
  | c :: _ => c == ' ' || c == '\t' || isBreak c

/-! ## What a text is made of -/

/-- The characters that begin something else than a scalar without quotes. -/
def indicators : List Char :=
  ['#', ',', '[', ']', '\x7b', '\x7d', '&', '*', '!', '|', '>', '\'', '"', '%', '@', '\x60']

/-- Whether something in the rest of a text would end a scalar without quotes: a colon before a gap, or the
    mark of a comment after one. -/
def endsWithin : Bool → List Char → Bool
  | _, [] => false
  | afterGap, c :: cs =>
    (c == ':' && atGap cs) || (c == '#' && afterGap) || endsWithin (atGap [c]) cs

/-- Whether a text would be read as something else when it is written without quotes. -/
def isIndicated (cs : List Char) : Bool :=
  match cs with
  | [] => false
  | c :: rest =>
    ['-', '-', '-'].isPrefixOf cs || ['.', '.', '.'].isPrefixOf cs || indicators.contains c ||
      ((c == '?' || c == ':' || c == '-') && atGap rest) || endsWithin (atGap [c]) rest

/-- Whether two neighbours of a text are as wanted. -/
def anyPair (wanted : Char → Char → Bool) : List Char → Bool
  | a :: b :: rest => wanted a b || anyPair wanted (b :: rest)
  | _ => false

/-- Whether a text begins or ends with a blank or a line end. -/
def hasLooseEnds (cs : List Char) : Bool :=
  let loose (c : Char) := c == ' ' || isBreak c
  cs.head?.any loose || cs.getLast?.any loose

/-- Whether only escapes can write a text: it has characters that cannot be printed, or a line that ends in a
    space. -/
def needsEscapes (cs : List Char) : Bool :=
  cs.any (fun c => !isPrintable c) || anyPair (fun a b => a == ' ' && isBreak b) cs

/-- Whether a text can be written without quotes. -/
def plainAllowed (cs : List Char) : Bool :=
  !needsEscapes cs && !cs.any isBreak && !hasLooseEnds cs && !isIndicated cs

/-- Whether a text can be written between single quotes. -/
def singleAllowed (cs : List Char) : Bool :=
  !needsEscapes cs && !anyPair (fun a b => isBreak a && b == ' ') cs

/-- Whether a text can be written as the lines that it has. -/
def literalAllowed (cs : List Char) : Bool :=
  !needsEscapes cs && cs.getLast? ≠ some ' '

/-- How a text is written. -/
inductive Style where
  | plain
  | singleQuoted
  | doubleQuoted
  | literal
  deriving DecidableEq, Repr, Inhabited

/-- The style of a text: as lines if it has several, and without quotes if it then reads as itself. -/
def style (s : String) : Style :=
  let cs := s.toList
  if cs.contains '\n' then (if literalAllowed cs then .literal else .doubleQuoted)
  else if isText s && !hasLeadingZero cs && plainAllowed cs then .plain
  else if singleAllowed cs then .singleQuoted
  else .doubleQuoted

/-! ## Written forms -/

/-- The blanks in front of a line. -/
def spaces (n : Nat) : List Char := List.replicate n ' '

/-- Text between single quotes, which are doubled inside. A line end is followed by the indentation. -/
def singleQuotedBody (indent : Nat) : Bool → List Char → List Char
  | _, [] => []
  | afterBreak, c :: cs =>
    let lead := if afterBreak && !isBreak c then spaces indent else []
    let written := if c == '\'' then ['\'', '\''] else [c]
    lead ++ written ++ singleQuotedBody indent (isBreak c) cs

/-- A text between single quotes. -/
def singleQuoted (indent : Nat) (cs : List Char) : List Char :=
  '\'' :: (singleQuotedBody indent false cs ++ ['\''])

/-- The letters of escapes. -/
def escapes : List (Nat × Char) :=
  [(0x00, '0'), (0x07, 'a'), (0x08, 'b'), (0x09, 't'), (0x0A, 'n'), (0x0B, 'v'), (0x0C, 'f'), (0x0D, 'r'),
   (0x1B, 'e'), (0x22, '"'), (0x5C, '\\'), (0x85, 'N'), (0xA0, '_'), (0x2028, 'L'), (0x2029, 'P')]

/-- A character as it is written between double quotes. -/
def escapeChar (c : Char) : List Char :=
  if isPrintable c && !isBreak c && c != '"' && c != '\\' then [c]
  else match escapes.lookup c.toNat with
    | some letter => ['\\', letter]
    | none =>
      if c.toNat < 0x100 then '\\' :: 'x' :: hexDigits 2 c.toNat
      else if c.toNat < 0x10000 then '\\' :: 'u' :: hexDigits 4 c.toNat
      else '\\' :: 'U' :: hexDigits 8 c.toNat

/-- A text between double quotes. -/
def doubleQuoted (cs : List Char) : List Char := '"' :: (cs.flatMap escapeChar ++ ['"'])

/-- The mark for how a literal text ends: without a line end, with one, or with several. A text that is only
    a line end counts as one with several. -/
def chomping (cs : List Char) : List Char :=
  match cs.reverse with
  | [] => ['-']
  | c :: before =>
    if !isBreak c then ['-']
    else match before with
      | [] => ['+']
      | d :: _ => if isBreak d then ['+'] else []

/-- The lines of a literal text, each that is not empty behind its indentation. -/
def literalBody (indent : Nat) : Bool → List Char → List Char
  | _, [] => []
  | afterBreak, c :: cs =>
    let lead := if afterBreak && !isBreak c then spaces indent else []
    lead ++ c :: literalBody indent (isBreak c) cs

/-- A literal text, its header included, up to the end of its last line. -/
def literal (indent : Nat) (cs : List Char) : List Char :=
  let hint := if cs.head?.any (fun c => c == ' ' || isBreak c) then ['2'] else []
  let ending := if cs.getLast?.any isBreak then [] else ['\n']
  '|' :: (hint ++ chomping cs ++ '\n' :: literalBody indent true cs ++ ending)

/-- A text in its style, with the end of its last line. Further lines are indented by `indent`. -/
def textLine (indent : Nat) (s : String) : List Char :=
  match style s with
  | .plain => s.toList ++ ['\n']
  | .singleQuoted => singleQuoted indent s.toList ++ ['\n']
  | .doubleQuoted => doubleQuoted s.toList ++ ['\n']
  | .literal => literal indent s.toList

/-! ## Documents -/

/-- The written form of a key that fits before its colon: a single line of at most 128 bytes. -/
def simpleKey? : Yaml → Option (List Char)
  | text s =>
    if s.toList.any isBreak || 128 < s.utf8ByteSize then none
    else match style s with
      | .plain => some s.toList
      | .singleQuoted => some (singleQuoted 0 s.toList)
      | .doubleQuoted | .literal => some (doubleQuoted s.toList)
  | plain s => some s.toList
  | sequence _ | mapping _ => none

mutual

/-- What follows the colon of an entry whose key is at column `indent`. -/
def afterKey (indent : Nat) : Yaml → List Char
  | text s => ' ' :: textLine (indent + 2) s
  | plain s => ' ' :: (s.toList ++ ['\n'])
  | sequence [] => " []\n".toList
  | mapping [] => [' ', '\x7b', '\x7d', '\n']
  | sequence (item :: rest) => '\n' :: itemLines (spaces indent) indent (item :: rest)
  | mapping (entry :: rest) => '\n' :: entryLines (spaces (indent + 2)) (indent + 2) (entry :: rest)

/-- What follows a mark at column `indent`: a dash, or the mark of a key or value that is not simple. -/
def afterMark (indent : Nat) : Yaml → List Char
  | text s => ' ' :: textLine (indent + 2) s
  | plain s => ' ' :: (s.toList ++ ['\n'])
  | sequence [] => " []\n".toList
  | mapping [] => [' ', '\x7b', '\x7d', '\n']
  | sequence (item :: rest) => ' ' :: itemLines [] (indent + 2) (item :: rest)
  | mapping (entry :: rest) => ' ' :: entryLines [] (indent + 2) (entry :: rest)

/-- The items of a sequence at column `indent`; `lead` stands before the first of them. -/
def itemLines (lead : List Char) (indent : Nat) : List Yaml → List Char
  | [] => []
  | item :: rest => lead ++ '-' :: (afterMark indent item ++ itemLines (spaces indent) indent rest)

/-- The entries of a mapping at column `indent`; `lead` stands before the first of them. -/
def entryLines (lead : List Char) (indent : Nat) : List (Yaml × Yaml) → List Char
  | [] => []
  | (key, value) :: rest =>
    let line := match simpleKey? key with
      | some written => written ++ ':' :: afterKey indent value
      | none => '?' :: (afterMark indent key ++ spaces indent ++ ':' :: afterMark indent value)
    lead ++ line ++ entryLines (spaces indent) indent rest

end

/-- The text of a document. -/
def print (d : Yaml) : String :=
  String.ofList <| match d with
    | text s => textLine 2 s
    | plain s => s.toList ++ ['\n']
    | sequence [] => "[]\n".toList
    | mapping [] => ['\x7b', '\x7d', '\n']
    | sequence items => itemLines [] 0 items
    | mapping entries => entryLines [] 0 entries

end Yaml
end TableSpec
