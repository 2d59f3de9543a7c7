import TableSpec.Source.StringLiteral
import TableSpec.Text.Identifier

/-!
# `TableSpec.Source.Token` — the words of a specification file

A file is read as a sequence of tokens. Blanks, comments and, inside brackets, line ends separate tokens
and mean nothing else. Outside brackets a line end is a token, which knows how far the next line that
holds something is indented. A backslash at the end of a line joins it to the next; how many such
joints stand before a token is kept with it, because a list of arguments counts them as elements.

A formatted string (`f"..."`) is a sequence of tokens: its opening, for each `{...}` in it the tokens
inside, and its close, which holds the value of the whole literal.

## Contents
- `Token`, `Lexeme`.
- The scanners of single tokens: `closeString`, `closeComment`, `takeName`, `takeNumber`, `takeSymbol`.
- `Lexer.State` and `Lexer.step`: one token, and what is left. `lexemes?`: all of them.
-/

namespace TableSpec

/-- A word of the source. -/
inductive Token where
  /-- An identifier that is no keyword. -/
  | name (id : String)
  /-- A reserved word. -/
  | keyword (word : String)
  | integer
  | float
  /-- A string literal that holds no expressions; the value is decoded. -/
  | str (value : String)
  /-- The opening of a formatted string. -/
  | formatOpen
  /-- The close of a formatted string, with the value of the whole literal. -/
  | formatClose (value : String)
  /-- The brace that opens an expression in a formatted string. -/
  | holeOpen
  /-- The colon before the layout of an expression in a formatted string. -/
  | holeLayout
  /-- The brace that closes an expression in a formatted string. -/
  | holeClose
  /-- An operator, bracket or other mark. -/
  | symbol (mark : String)
  /-- A line end, with the indentation of the next line that is neither blank nor a comment. -/
  | newline (indent : Nat)
  /-- The end of the text. -/
  | finish
  deriving DecidableEq, Repr, Inhabited

/-- A token and the number of joined line ends right before it. -/
structure Lexeme where
  joints : Nat
  token : Token
  deriving DecidableEq, Repr, Inhabited

namespace Lexer

/-! ## Character classes -/

/-- The characters that only separate tokens. -/
def isBlank (c : Char) : Bool :=
  c == ' ' || c == '\t' || c == '\r' || c == '\x0b' || c == '\x0c' || c.toNat == 0x85 ||
  c.toNat == 0xA0 || c.toNat == 0x1680 || (0x2000 ≤ c.toNat && c.toNat ≤ 0x200B) ||
  c.toNat == 0x2028 || c.toNat == 0x2029 || c.toNat == 0x202F || c.toNat == 0x205F ||
  c.toNat == 0x2060 || c.toNat == 0x3000 || c.toNat == 0xFEFF

/-- The words that no identifier may be. -/
def reserved : List String :=
  ["False", "None", "True", "and", "as", "assert", "break", "class", "continue", "def", "del",
   "elif", "else", "except", "finally", "for", "from", "global", "if", "import", "in", "is",
   "lambda", "nonlocal", "not", "or", "pass", "raise", "return", "try", "while", "with", "yield"]

/-- The token that a word is. -/
def wordToken (word : String) : Token :=
  if reserved.contains word then .keyword word else .name word

/-! ## Scanners of single tokens -/

/-- What follows the next line end, or nothing; the rest of a comment is before it. -/
def closeComment : List Char → List Char
  | [] => []
  | '\n' :: cs => '\n' :: cs
  | _ :: cs => closeComment cs

/-- The indentation of the next line that holds something, from the blanks at the start of `cs` on;
    `width` is the indentation so far. At the end of the text it is 0. -/
def indentation : Nat → List Char → Bool → Nat
  | _, [], _ => 0
  | width, c :: cs, inComment =>
    if inComment then indentation 0 cs (c != '\n')
    else if c = '\n' then indentation 0 cs false
    else if c = ' ' then indentation (width + 1) cs false
    else if c = '\t' then indentation (width + 8) cs false
    else if c = '\r' || c = '\x0c' then indentation 0 cs false
    else if c = '#' then indentation 0 cs true
    else width

/-- Whether the text goes on with `quote`, three times for a triple quote; then what follows. -/
def closingQuote? (quote : Char) (triple : Bool) : List Char → Option (List Char)
  | a :: cs =>
    if a = quote then
      if triple then
        match cs with
        | b :: c :: cs => if b = quote ∧ c = quote then some cs else none
        | _ => none
      else some cs
    else none
  | [] => none

/-- The text after the close of a string. A backslash hides the character after it; a line end may
    stand in the string only behind one or between triple quotes. -/
def closeString (quote : Char) (triple raw : Bool) : List Char → Option (List Char)
  | [] => none
  | c :: cs =>
    match closingQuote? quote triple (c :: cs) with
    | some rest => some rest
    | none =>
      if c = '\n' && !triple then none
      else if c = '\\' then
        match cs with
        | '\r' :: '\n' :: rest => closeString quote triple raw rest
        | d :: rest =>
          if raw && d ≠ quote && d ≠ '\\' && d ≠ '\n' then closeString quote triple raw (d :: rest)
          else closeString quote triple raw rest
        | [] => none
      else closeString quote triple raw cs

/-- Where the text of a formatted string stops. -/
inductive FormatStop where
  | close
  | hole
  deriving DecidableEq, Repr

/-- The text of a formatted string up to its close or to the next expression, and what follows it.
    A doubled brace stands for one brace. -/
def closeFormat (quote : Char) (triple raw : Bool) : List Char → Option (FormatStop × List Char)
  | [] => none
  | c :: cs =>
    match closingQuote? quote triple (c :: cs) with
    | some rest => some (.close, rest)
    | none =>
      if c = '\n' && !triple then none
      else if c = '{' then
        match cs with
        | '{' :: rest => closeFormat quote triple raw rest
        | _ => some (.hole, cs)
      else if c = '}' then
        match cs with
        | '}' :: rest => closeFormat quote triple raw rest
        | _ => none
      else if c = '\\' then
        match cs with
        | '\r' :: '\n' :: rest => closeFormat quote triple raw rest
        | d :: rest =>
          if d = '{' || d = '}' then closeFormat quote triple raw (d :: rest)
          else if raw && d ≠ quote && d ≠ '\\' && d ≠ '\n' then closeFormat quote triple raw (d :: rest)
          else closeFormat quote triple raw rest
        | [] => none
      else closeFormat quote triple raw cs

/-- The layout text of an expression in a formatted string, up to the brace that ends it or that opens
    an expression inside the layout; and what follows that brace. -/
def closeLayout : List Char → Option (FormatStop × List Char)
  | [] => none
  | c :: cs =>
    if c = '}' then some (.close, cs)
    else if c = '{' then some (.hole, cs)
    else if c = '\n' then none
    else closeLayout cs

/-- The identifier or keyword at the start of the text, and what follows it. -/
def takeName (cs : List Char) : List Char × List Char :=
  (cs.takeWhile Identifier.isContinue, cs.dropWhile Identifier.isContinue)

/-- A run of digits in which a single underscore may follow any digit. -/
def dropDigits (isDigit : Char → Bool) : List Char → List Char
  | c :: d :: cs =>
    if isDigit c then
      if d = '_' then dropDigits isDigit cs else dropDigits isDigit (d :: cs)
    else c :: d :: cs
  | [c] => if isDigit c then [] else [c]
  | [] => []

/-- Digits of a base after its mark, where an underscore may also stand first; `none` without a
    digit. -/
def dropBased (isDigit : Char → Bool) (cs : List Char) : Option (List Char) :=
  let cs := if cs.head? = some '_' then cs.tail else cs
  if cs.head?.any isDigit then some (dropDigits isDigit cs) else none

/-- The exponent at the start of the text, if there is one. -/
def dropExponent (cs : List Char) : Option (List Char) :=
  match cs with
  | e :: cs =>
    if e = 'e' || e = 'E' then
      let digits := if cs.head? = some '+' || cs.head? = some '-' then cs.tail else cs
      if digits.head?.any Char.isDigit then some (dropDigits Char.isDigit digits) else none
    else none
  | [] => none

/-- Leave out one of the given letters, if the text begins with it. -/
def dropLetter (letters : List Char) (cs : List Char) : List Char :=
  match cs with
  | c :: rest => if letters.contains c then rest else cs
  | [] => []

/-- The digits of a base other than ten: its letters, and which characters are its digits. -/
def bases : List (List Char × (Char → Bool)) :=
  [(['x', 'X'], fun c => (hexDigit? c).isSome),
   (['o', 'O'], fun c => '0' ≤ c && c ≤ '7'),
   (['b', 'B'], fun c => c == '0' || c == '1')]

/-- The number at the start of the text, which begins with a digit or with a point and a digit. -/
def takeNumber (cs : List Char) : Token × List Char :=
  let based := match cs with
    | '0' :: x :: rest => bases.findSome? (fun b => if b.1.contains x then dropBased b.2 rest else none)
    | _ => none
  match based with
  | some rest => (.integer, dropLetter ['l', 'L'] rest)
  | none =>
    let whole := dropDigits Char.isDigit cs
    match whole with
    | '.' :: rest =>
      let fraction := dropDigits Char.isDigit rest
      (.float, dropLetter ['j', 'J'] ((dropExponent fraction).getD fraction))
    | _ =>
      match dropExponent whole with
      | some rest => (.float, dropLetter ['j', 'J'] rest)
      | none => (.integer, dropLetter ['l', 'L', 'j', 'J'] whole)

/-- The marks, longer ones before their beginnings. -/
def marks : List (List Char) :=
  ["...", "**=", "//=", "<<=", ">>=", "->", ":=", "+=", "-=", "*=", "/=", "%=", "@=", "&=", "|=",
   "^=", "==", "!=", "<=", ">=", "<>", "<<", ">>", "**", "//", "(", ")", "[", "]", "\x7b", "\x7d", ",",
   ":", ".", ";", "=", "+", "-", "*", "/", "%", "@", "&", "|", "^", "~", "<", ">", "!"].map String.toList

/-- The longest mark at the start of the text, and what follows it. -/
def takeSymbol (cs : List Char) : Option (String × List Char) :=
  (marks.find? (fun m => m.isPrefixOf cs)).map (fun m => (String.ofList m, cs.drop m.length))

/-! ## The lexer -/

/-- A formatted string that is being read: its text from the first letter on, its quote and kind. -/
structure Format where
  start : List Char
  quote : Char
  triple : Bool
  raw : Bool
  deriving Repr

/-- What the reading point is inside of. -/
inductive Frame where
  | bracket
  /-- An expression in a formatted string, or in the layout of one. -/
  | hole (format : Format) (inLayout : Bool)
  deriving Repr

/-- What surrounds the reading point, innermost first, and the joints not yet given to a token. -/
structure State where
  frames : List Frame
  joints : Nat
  deriving Repr

/-- Give the pending joints to a token. -/
def State.emit (s : State) (token : Token) : Lexeme := ⟨s.joints, token⟩

/-- Go on in the text of a formatted string: up to its close, or into its next expression. -/
def inFormat (format : Format) (frames : List Frame) (cs : List Char) :
    Option (List Lexeme × State × List Char) :=
  (closeFormat format.quote format.triple format.raw cs).map fun (stop, rest) =>
    match stop with
    | .close =>
      let literal := format.start.take (format.start.length - rest.length)
      ([⟨0, .formatClose (String.ofList (decodeChars literal))⟩], ⟨frames, 0⟩, rest)
    | .hole => ([⟨0, .holeOpen⟩], ⟨.hole format false :: frames, 0⟩, rest)

/-- Go on in the layout of an expression: up to its end, or into an expression in the layout. The end of
    a layout ends its expression; if that one is itself in a layout, that layout goes on. -/
def inLayout (format : Format) (within : Bool) (frames : List Frame) (cs : List Char) :
    Option (List Lexeme × State × List Char) :=
  match closeLayout cs with
  | none => none
  | some (.hole, rest) =>
    some ([⟨0, .holeOpen⟩], ⟨.hole format true :: .hole format within :: frames, 0⟩, rest)
  | some (.close, rest) =>
    match within, frames with
    | true, .hole _ outer :: frames =>
      (inLayout format outer frames rest).map (fun r => (⟨0, .holeClose⟩ :: r.1, r.2))
    | _, frames => (inFormat format frames rest).map (fun r => (⟨0, .holeClose⟩ :: r.1, r.2))

/-- The string literal whose quote begins `cs`; `letters` stand before it. -/
def takeString (s : State) (letters cs : List Char) : Option (List Lexeme × State × List Char) := do
  let quote ← cs.head?
  let n := quoteLength cs
  let body := cs.drop n
  let raw := letters.any (fun c => c == 'r' || c == 'R')
  if letters.any (fun c => c == 'f' || c == 'F') then
    let (lexemes, state, rest) ← inFormat ⟨letters ++ cs, quote, n == 3, raw⟩ s.frames body
    return (s.emit .formatOpen :: lexemes, state, rest)
  else
    let rest ← closeString quote (n == 3) raw body
    let literal := letters ++ cs.take (cs.length - rest.length)
    return ([s.emit (.str (String.ofList (decodeChars literal)))], { s with joints := 0 }, rest)

/-- The letters that may stand before the quote of a string. -/
def isStringLetter (c : Char) : Bool := "rRbBuUfF".toList.contains c

/-- A mark: brackets open and close frames, and inside a formatted string a brace ends its expression
    and a colon begins the layout. -/
def takeMark (s : State) (cs : List Char) : Option (List Lexeme × State × List Char) := do
  let (mark, rest) ← takeSymbol cs
  let plain := ([s.emit (.symbol mark)], { s with joints := 0 }, rest)
  if mark = "(" || mark = "[" || mark = "\x7b" then
    return ([s.emit (.symbol mark)], ⟨.bracket :: s.frames, 0⟩, rest)
  else match s.frames with
    | [] => return plain
    | .bracket :: frames =>
      if mark = ")" || mark = "]" || mark = "\x7d" then
        return ([s.emit (.symbol mark)], ⟨frames, 0⟩, rest)
      else return plain
    | .hole format layout :: frames =>
      if mark = "\x7d" then
        let close := s.emit .holeClose
        match layout, frames with
        | true, .hole _ within :: outer =>
          let (lexemes, state, rest) ← inLayout format within outer rest
          return (close :: lexemes, state, rest)
        | _, _ =>
          let (lexemes, state, rest) ← inFormat format frames rest
          return (close :: lexemes, state, rest)
      else if mark.front = ':' then
        let (lexemes, state, rest) ← inLayout format layout frames (cs.drop 1)
        return (s.emit .holeLayout :: lexemes, state, rest)
      else return plain

/-- One step: the lexemes at the start of the text, the state after them and what is left. -/
def step (s : State) (cs : List Char) : Option (List Lexeme × State × List Char) :=
  match cs with
  | [] => some ([s.emit .finish], { s with joints := 0 }, [])
  | c :: rest =>
    if c = '\n' then
      match s.frames with
      | [] => some ([⟨0, .newline (indentation 0 rest false)⟩], s, rest)
      | _ => some ([], s, rest)
    else if isBlank c then some ([], s, rest)
    else if c = '#' then some ([], s, closeComment rest)
    else if c = '\\' then
      match rest with
      | '\n' :: rest => some ([], { s with joints := s.joints + 1 }, rest)
      | '\r' :: '\n' :: rest => some ([], { s with joints := s.joints + 1 }, rest)
      | _ => none
    else if isQuote c then takeString s [] cs
    else if c.isDigit || (c = '.' && rest.head?.any Char.isDigit) then
      let (token, rest) := takeNumber cs
      some ([s.emit token], { s with joints := 0 }, rest)
    else if Identifier.isStart c then
      let (word, rest) := takeName cs
      if word.all isStringLetter && rest.head?.any isQuote then takeString s word rest
      else some ([s.emit (wordToken (String.ofList word))], { s with joints := 0 }, rest)
    else takeMark s cs

/-- The lexemes of a text, the end of the text included. Every step takes a character, so `fuel` one
    greater than the length of the text lasts. -/
def run : Nat → State → List Char → Option (List Lexeme)
  | 0, _, _ => none
  | fuel + 1, s, cs =>
    match step s cs with
    | none => none
    | some (lexemes, s, rest) =>
      if cs.isEmpty then some lexemes else (run fuel s rest).map (lexemes ++ ·)

end Lexer

/-- The lexemes of a source text; `none` when it holds something that is no token. The character with
    code 0 is in no source text. -/
def lexemes? (text : List Char) : Option (List Lexeme) :=
  if text.any (fun c => c.toNat == 0) then none else Lexer.run (text.length + 1) ⟨[], 0⟩ text

end TableSpec
