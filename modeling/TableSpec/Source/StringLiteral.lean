import TableSpec.Text.Hex
import TableSpec.Text.Utf8

/-!
# `TableSpec.Source.StringLiteral` — the value of a string literal

A string literal is an optional run of letters, a quote (one or three quote characters), a body and
the same quote again. In the body a backslash begins an escape, unless one of the letters is an `r`.
What looks like an escape and is none stays in the value as it is written.

## Contents
- `readEscape`: the escape that follows a backslash, and what is left after it.
- `unescape`: a body with its escapes replaced.
- `decodeString`: the value of a whole literal.
-/

namespace TableSpec

/-! ## Escapes -/

/-- The escapes of one character, and what they stand for. A backslash before a line end joins the lines. -/
def plainEscapes : List (Char × List Char) :=
  [('n', ['\n']), ('t', ['\t']), ('r', ['\r']), ('0', ['\x00']), ('\\', ['\\']), ('\'', ['\'']),
   ('"', ['"']), ('\n', [])]

/-- The letters before the digits of a character, and how many digits follow. -/
def digitEscapes : List (Char × Nat) := [('x', 2), ('u', 4), ('U', 8)]

/-- What an escape stands for, and the text after it. The argument is the text after the backslash;
    the answer is `none` when no escape is there. -/
def readEscape : List Char → Option (List Char × List Char)
  | [] => none
  | c :: cs =>
    match plainEscapes.lookup c, digitEscapes.lookup c with
    | some out, _ => some (out, cs)
    | none, some count => (hexChar? count cs).map (fun d => ([d], cs.drop count))
    | none, none => none

theorem readEscape_length {cs out rest : List Char} (h : readEscape cs = some (out, rest)) :
    rest.length < cs.length := by
  cases cs with
  | nil => simp [readEscape] at h
  | cons c tail =>
    simp only [readEscape] at h
    rw [List.length_cons]
    apply Nat.lt_succ_of_le
    split at h
    · cases h
      exact Nat.le_refl _
    · obtain ⟨d, _, hd⟩ := Option.map_eq_some_iff.mp h
      rw [← (Prod.mk.inj hd).2, List.length_drop]
      omega
    · cases h

/-- A body with its escapes replaced by what they stand for. A backslash that begins no escape stays. -/
def unescape : List Char → List Char
  | [] => []
  | c :: cs =>
    if c = '\\' then
      match h : readEscape cs with
      | some (out, rest) =>
        have := readEscape_length h
        out ++ unescape rest
      | none => '\\' :: unescape cs
    else c :: unescape cs
  termination_by cs => cs.length

@[simp] theorem unescape_nil : unescape [] = [] := by
  simp [unescape]

theorem unescape_cons {c : Char} (h : c ≠ '\\') (cs : List Char) :
    unescape (c :: cs) = c :: unescape cs := by
  rw [unescape]
  simp [h]

theorem unescape_escape {cs out rest : List Char} (h : readEscape cs = some (out, rest)) :
    unescape ('\\' :: cs) = out ++ unescape rest := by
  rw [unescape]
  simp only [if_true]
  split
  · rename_i h'
    rw [h] at h'
    cases h'
    rfl
  · rename_i h'
    rw [h] at h'
    cases h'

theorem unescape_backslash {cs : List Char} (h : readEscape cs = none) :
    unescape ('\\' :: cs) = '\\' :: unescape cs := by
  rw [unescape]
  simp only [if_true]
  split
  · rename_i h'
    rw [h] at h'
    cases h'
  · rfl

/-! ## Literals -/

/-- The two characters that open a string. -/
def isQuote (c : Char) : Bool := c == '"' || c == '\''

/-- The letters before the opening quote. A text without a quote has none. -/
def literalLetters (raw : List Char) : List Char :=
  if raw.any isQuote then raw.takeWhile (fun c => !isQuote c) else []

/-- How many characters the quote of a literal has; the argument begins with the quote. -/
def quoteLength : List Char → Nat
  | a :: b :: c :: _ => if isQuote a && a == b && b == c then 3 else 1
  | _ => 1

/-- What stands between the quotes; the argument begins with the opening quote. A text too short for
    two quotes has nothing between them. -/
def literalBody (quoted : List Char) : List Char :=
  let n := quoteLength quoted
  if 2 * n ≤ byteLength quoted then (dropBytes n (quoted.drop n).reverse).reverse else []

/-- The value of a string literal. -/
def decodeChars (raw : List Char) : List Char :=
  let letters := literalLetters raw
  let body := literalBody (raw.drop letters.length)
  if letters.any (fun c => c == 'r' || c == 'R') then body else unescape body

/-- The value of a string literal. -/
def decodeString (raw : String) : String := String.ofList (decodeChars raw.toList)

end TableSpec
