import TableSpec.Proofs.Text.Hex
import TableSpec.Source.StringLiteral

/-!
# `Proofs.Source.Spelling` — the ways to write a string

A string is written between one quote on each side or three, single or double ones. Every character of it is written
as itself, by the letter that stands for it, or by its code in two, four or eight hexadecimal digits, and between any
two of them the line may be continued on the next one. The choice is made anew for every character, and whatever it
is, the value of the literal is the string. Nothing is to be asked of what follows an escape: the number of its
digits says where it ends.

With one of the letters `r` and `R` in front of the quotes nothing is an escape, and the value is what is written.

## Contents
- `QuoteStyle`, `QuoteStyle.literal`: literals and their quotes. `QuoteStyle.Holds`: bodies whose quotes are told
  apart from their own.
- `SpelledAs`, `Spells`: the ways to write a character, and a string.
- `unescape_spelledAs`, `unescape_spells_append`, `unescape_spells`: what is written is read.
- `literalLetters_literal`, `literalBody_literal`, `decodeChars_literal`: the parts of a literal.
- `decodeString_spells`: all of it.
-/

namespace TableSpec

/-! ## Literals -/

/-- The quotes of a literal: which character, and whether three of it on each side. -/
structure QuoteStyle where
  quote : Char
  triple : Bool
  isQuote_quote : isQuote quote = true

theorem isQuote_double : isQuote '"' = true := rfl

theorem isQuote_single : isQuote '\'' = true := rfl

namespace QuoteStyle

/-- The quotes on one side. -/
def marks (style : QuoteStyle) : List Char := List.replicate (if style.triple then 3 else 1) style.quote

/-- Letters, and a body between quotes. -/
def literal (style : QuoteStyle) (letters body : List Char) : List Char :=
  letters ++ (style.marks ++ body ++ style.marks)

/-- A body does not begin with its own quote, where that would be the end of the literal already. -/
def Holds (style : QuoteStyle) (body : List Char) : Prop := style.triple = true ∨ body.head? ≠ some style.quote

/-! ## Spellings -/

/-- Characters with the letters that stand for them behind a backslash. -/
def namedEscapes : List (Char × Char) :=
  [('\n', 'n'), ('\t', 't'), ('\r', 'r'), ('\x00', '0'), ('\\', '\\'), ('\'', '\''), ('"', '"')]

/-- Letters that stand behind a backslash for a character with a code of so many hexadecimal digits. -/
def codeEscapes : List (Char × Nat) := [('x', 2), ('u', 4), ('U', 8)]

/-- The ways to write a character. -/
inductive SpelledAs (style : QuoteStyle) (c : Char) : List Char → Prop where
  /-- By itself. A backslash would begin an escape, and between two quotes a third one would end the literal. -/
  | itself (hslash : c ≠ '\\') (hquote : style.triple = true ∨ c ≠ style.quote) : SpelledAs style c [c]
  /-- By its letter. -/
  | named {letter : Char} (h : (c, letter) ∈ namedEscapes) : SpelledAs style c ['\\', letter]
  /-- By the digits of its code, in either case. -/
  | coded {letter : Char} {count : Nat} {digits : List Char} (h : (letter, count) ∈ codeEscapes)
      (hcode : c.toNat < Nat.pow 16 count) (hdigits : digits.map Char.toUpper = hexDigits count c.toNat) :
      SpelledAs style c ('\\' :: letter :: digits)

/-- The ways to write a string: character by character, with lines continued anywhere between them. -/
inductive Spells (style : QuoteStyle) : List Char → List Char → Prop where
  | nil : Spells style [] []
  | continued {value body : List Char} (h : Spells style value body) : Spells style value ('\\' :: '\n' :: body)
  | char {c : Char} {cs value body : List Char} (hc : SpelledAs style c cs) (h : Spells style value body) :
      Spells style (c :: value) (cs ++ body)

end QuoteStyle

/-! ## Escapes -/

open QuoteStyle (SpelledAs Spells namedEscapes codeEscapes)

variable {style : QuoteStyle} {letters body cs : List Char} {c : Char}

/-- The named escapes are found under their letters. -/
theorem lookup_namedEscapes : ∀ e ∈ namedEscapes, plainEscapes.lookup e.2 = some [e.1] := by decide

/-- The letters of escapes with digits say how many there are, and stand for nothing by themselves. -/
theorem lookup_codeEscapes : ∀ e ∈ codeEscapes,
    plainEscapes.lookup e.1 = none ∧ digitEscapes.lookup e.1 = some e.2 := by
  decide

/-- However a character is written, it is read as that character, and what follows is read as it is by itself. -/
theorem unescape_spelledAs (h : SpelledAs style c cs) (rest : List Char) :
    unescape (cs ++ rest) = c :: unescape rest := by
  cases h with
  | itself hslash _ => exact unescape_cons hslash rest
  | @named letter h =>
    have hread : readEscape (letter :: rest) = some ([c], rest) := by
      simp only [readEscape, lookup_namedEscapes _ h]
    exact unescape_escape hread
  | @coded letter count digits h hcode hdigits =>
    obtain ⟨hplain, hdigit⟩ := lookup_codeEscapes _ h
    have hlength : digits.length = count := by
      rw [← List.length_map Char.toUpper, hdigits, length_hexDigits]
    have hread : readEscape (letter :: (digits ++ rest)) = some ([c], rest) := by
      simp only [readEscape, hplain, hdigit, hexChar?_digits hcode hdigits, Option.map_some,
        List.drop_left' hlength]
    exact unescape_escape hread

/-- A continued line leaves nothing behind. -/
theorem unescape_continued (rest : List Char) : unescape ('\\' :: '\n' :: rest) = unescape rest := by
  have hread : readEscape ('\n' :: rest) = some ([], rest) := rfl
  rw [unescape_escape hread, List.nil_append]

/-- However a string is written, it is read as that string, and what follows is read as it is by itself. -/
theorem unescape_spells_append {value : List Char} (h : Spells style value body) (rest : List Char) :
    unescape (body ++ rest) = value ++ unescape rest := by
  induction h with
  | nil => rfl
  | continued _ ih => rw [List.cons_append, List.cons_append, unescape_continued, ih]
  | char hc _ ih => rw [List.append_assoc, unescape_spelledAs hc, ih, List.cons_append]

/-- **A body is read as the value that it spells.** -/
theorem unescape_spells {value : List Char} (h : Spells style value body) : unescape body = value := by
  have happend := unescape_spells_append h []
  rwa [List.append_nil, unescape_nil, List.append_nil] at happend

/-! ## The parts of a literal -/

theorem byteLength_append (xs ys : List Char) : byteLength (xs ++ ys) = byteLength xs + byteLength ys := by
  induction xs with
  | nil => exact (Nat.zero_add _).symm
  | cons x xs ih =>
    show x.utf8Size + byteLength (xs ++ ys) = x.utf8Size + byteLength xs + byteLength ys
    rw [ih, Nat.add_assoc]

/-- Every character has a byte or more. -/
theorem length_le_byteLength (xs : List Char) : xs.length ≤ byteLength xs := by
  induction xs with
  | nil => exact Nat.le_refl 0
  | cons x xs ih =>
    have hpos := x.utf8Size_pos
    show xs.length + 1 ≤ x.utf8Size + byteLength xs
    omega

theorem utf8Size_of_isQuote {q : Char} (h : isQuote q = true) : q.utf8Size = 1 := by
  simp only [isQuote, Bool.or_eq_true, beq_iff_eq] at h
  rcases h with rfl | rfl
  · rfl
  · rfl

/-- As many bytes as quotes are dropped: a quote is one byte. -/
theorem dropBytes_replicate {q : Char} (hq : q.utf8Size = 1) (n : Nat) (xs : List Char) :
    dropBytes n (List.replicate n q ++ xs) = xs := by
  induction n with
  | zero =>
    cases xs with
    | nil => rfl
    | cons x xs => rfl
  | succ n ih =>
    rw [List.replicate_succ, List.cons_append, dropBytes, hq]
    exact ih

/-- One quote on each side is taken for one, unless the body begins with another one. -/
theorem quoteLength_single {q c : Char} (hc : c ≠ q) (cs : List Char) : quoteLength (q :: c :: cs) = 1 := by
  have hne : q ≠ c := Ne.symm hc
  cases cs with
  | nil => rfl
  | cons d cs => simp [quoteLength, hne]

namespace QuoteStyle

/-- The quotes of a literal are found by looking at both of its ends. -/
theorem quoteLength_marks (h : style.Holds body) :
    quoteLength (style.marks ++ body ++ style.marks) = style.marks.length := by
  obtain ⟨q, triple, hq⟩ := style
  cases triple with
  | true =>
    show quoteLength (q :: q :: q :: (body ++ [q, q, q])) = 3
    simp [quoteLength, hq]
  | false =>
    have hhead : body.head? ≠ some q := h.resolve_left Bool.false_ne_true
    show quoteLength (q :: (body ++ [q])) = 1
    cases body with
    | nil => rfl
    | cons c rest =>
      have hc : c ≠ q := by
        rintro rfl
        exact hhead rfl
      exact quoteLength_single hc _

theorem marks_reverse (style : QuoteStyle) : style.marks.reverse = style.marks := List.reverse_replicate

/-- What stands between the quotes is the body. -/
theorem literalBody_marks (h : style.Holds body) : literalBody (style.marks ++ body ++ style.marks) = body := by
  have hlength := quoteLength_marks h
  have hbytes : 2 * style.marks.length ≤ byteLength (style.marks ++ body ++ style.marks) := by
    have hmarks := length_le_byteLength style.marks
    rw [byteLength_append, byteLength_append]
    omega
  have hdrop : ∀ xs, dropBytes style.marks.length (style.marks ++ xs) = xs := by
    intro xs
    have hmarks := dropBytes_replicate (utf8Size_of_isQuote style.isQuote_quote) style.marks.length xs
    rwa [marks, List.length_replicate] at hmarks ⊢
  rw [literalBody, hlength, if_pos hbytes, List.append_assoc, List.drop_left, List.reverse_append, marks_reverse,
    hdrop, List.reverse_reverse]

theorem exists_marks (style : QuoteStyle) : ∃ more, style.marks = style.quote :: more := by
  unfold marks
  cases style.triple with
  | true => exact ⟨_, rfl⟩
  | false => exact ⟨_, rfl⟩

/-- The letters are those in front of the first quote. -/
theorem literalLetters_literal (hletters : ∀ c ∈ letters, isQuote c = false) :
    literalLetters (style.literal letters body) = letters := by
  obtain ⟨more, hmarks⟩ := style.exists_marks
  have hquote : (style.literal letters body).any isQuote = true := by
    rw [List.any_eq_true]
    refine ⟨style.quote, ?_, style.isQuote_quote⟩
    simp [literal, hmarks]
  rw [literalLetters, if_pos hquote, literal, hmarks, List.takeWhile_append_of_pos]
  · rw [List.cons_append, List.cons_append, List.takeWhile_cons_of_neg (by simp [style.isQuote_quote]),
      List.append_nil]
  · intro c hc
    rw [hletters c hc]
    rfl

/-- The value of a literal is its body, with escapes or without. -/
theorem decodeChars_literal (hletters : ∀ c ∈ letters, isQuote c = false) (h : style.Holds body) :
    decodeChars (style.literal letters body) =
      if letters.any (fun c => c == 'r' || c == 'R') then body else unescape body := by
  rw [decodeChars, literalLetters_literal hletters, literal, List.drop_left, literalBody_marks h]

/-- A backslash is no quote. -/
theorem slash_ne_quote (style : QuoteStyle) : '\\' ≠ style.quote := by
  intro heq
  have hquote := style.isQuote_quote
  rw [← heq] at hquote
  exact absurd hquote (by decide)

/-- What is written for a string does not begin with a quote that would end the literal. -/
theorem Spells.holds {value : List Char} (h : Spells style value body) : style.Holds body := by
  have hslash : ∀ rest, ('\\' :: rest : List Char).head? ≠ some style.quote := by
    intro rest heq
    exact style.slash_ne_quote (Option.some.inj heq)
  cases h with
  | nil => exact Or.inr (by simp)
  | continued _ => exact Or.inr (hslash _)
  | char hc _ =>
    cases hc with
    | itself _ hquote => exact hquote.imp_right (fun hne heq => hne (Option.some.inj heq))
    | named _ => exact Or.inr (hslash _)
    | coded _ _ _ => exact Or.inr (hslash _)

end QuoteStyle

/-! ## Values -/

/-- **However a string is written, it is the value of its literal.** The letters in front of the quotes are any
    characters but quotes. Without an `r` or `R` among them a string is read back from every way to write it; with
    one of these the value is what stands between the quotes. -/
theorem decodeString_spells (style : QuoteStyle) (hletters : ∀ c ∈ letters, isQuote c = false) :
    ((∀ c ∈ letters, c ≠ 'r' ∧ c ≠ 'R') → ∀ (value : String) (body : List Char), Spells style value.toList body →
      decodeString (String.ofList (style.literal letters body)) = value) ∧
    ((∃ c ∈ letters, c = 'r' ∨ c = 'R') → ∀ body, style.Holds body →
      decodeString (String.ofList (style.literal letters body)) = String.ofList body) := by
  have hdecode : ∀ body, style.Holds body → decodeString (String.ofList (style.literal letters body)) =
      String.ofList (if letters.any (fun c => c == 'r' || c == 'R') then body else unescape body) := by
    intro body hbody
    rw [decodeString, String.toList_ofList, QuoteStyle.decodeChars_literal hletters hbody]
  refine ⟨?_, ?_⟩
  · intro hplain value body hspells
    have hany : letters.any (fun c => c == 'r' || c == 'R') = false := by
      rw [List.any_eq_false]
      intro c hc
      simp [hplain c hc]
    rw [hdecode body hspells.holds, hany, if_neg Bool.false_ne_true, unescape_spells hspells, String.ofList_toList]
  · rintro ⟨c, hc, hraw⟩ body hbody
    have hany : letters.any (fun c => c == 'r' || c == 'R') = true := by
      rw [List.any_eq_true]
      exact ⟨c, hc, by simpa using hraw⟩
    rw [hdecode body hbody, if_pos hany]

/-- Three double quotes on each side. -/
def tripleQuotes : QuoteStyle := ⟨'"', true, isQuote_double⟩

/-- One single quote on each side. -/
def singleQuotes : QuoteStyle := ⟨'\'', false, isQuote_single⟩

/-- A string whose characters are written in different ways: a code in lower case, a quote by itself, a code in front
    of a character that could be one more digit, and a backslash, with a line continued between them. -/
def mixedBody : List Char :=
  ['\\', 'u', '0', '0', 'e', '9'] ++ (['"'] ++ '\\' :: '\n' :: (['\\', 'x', '4', '1'] ++ (['c'] ++
    (['\\', '\\'] ++ []))))

theorem spells_mixedBody : tripleQuotes.Spells "é\"Ac\\".toList mixedBody := by
  have haccent : SpelledAs tripleQuotes 'é' ['\\', 'u', '0', '0', 'e', '9'] :=
    @SpelledAs.coded _ _ 'u' 4 _ (by decide) (by decide) (by decide)
  have hquote : SpelledAs tripleQuotes '"' ['"'] := .itself (by decide) (Or.inl rfl)
  have hcode : SpelledAs tripleQuotes 'A' ['\\', 'x', '4', '1'] :=
    @SpelledAs.coded _ _ 'x' 2 _ (by decide) (by decide) (by decide)
  have hplain : SpelledAs tripleQuotes 'c' ['c'] := .itself (by decide) (Or.inl rfl)
  have hslash : SpelledAs tripleQuotes '\\' ['\\', '\\'] := .named (by decide)
  exact .char haccent (.char hquote (.continued (.char hcode (.char hplain (.char hslash .nil)))))

theorem decodeString_spells_mixedBody :
    decodeString "b\"\"\"\\u00e9\"\\\n\\x41c\\\\\"\"\"" = "é\"Ac\\" ∧ decodeString "Rb'\\x41'" = "\\x41" := by
  have htriple : String.ofList (tripleQuotes.literal ['b'] mixedBody) =
      "b\"\"\"\\u00e9\"\\\n\\x41c\\\\\"\"\"" := by decide +kernel
  have hsingle : String.ofList (singleQuotes.literal ['R', 'b'] "\\x41".toList) = "Rb'\\x41'" := by decide +kernel
  refine ⟨?_, ?_⟩
  · have hletters : ∀ c ∈ ['b'], isQuote c = false := by simp [isQuote]
    rw [← htriple]
    exact (decodeString_spells tripleQuotes hletters).1 (by simp) _ _ spells_mixedBody
  · have hletters : ∀ c ∈ ['R', 'b'], isQuote c = false := by simp [isQuote]
    have hbody : singleQuotes.Holds "\\x41".toList := Or.inr (by decide)
    rw [← hsingle, (decodeString_spells singleQuotes hletters).2 (by simp) _ hbody, String.ofList_toList]

end TableSpec
