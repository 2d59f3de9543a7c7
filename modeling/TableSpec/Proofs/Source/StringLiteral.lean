import TableSpec.Proofs.Source.Printer
import TableSpec.Proofs.Source.Spelling

/-!
# `Proofs.Source.StringLiteral` — strings read back

A text between double quotes is a literal whose value is that text. The scanner that looks for the closing
quote and the reader of escapes go through the literal separately; each of them takes what is written for one
character as a whole.

## Contents
- `WrittenAs`, `writtenAs_escapedChar`: the three ways in which a character is written.
- `spelledAs_of_writtenAs`, `spells_flatMap`: they are among the ways to write a string.
- `closeString_flatMap`: the scanner over a whole text.
- `decodeChars_quoted`, `takeString_quoted`: the literal.
-/

namespace TableSpec
namespace Source

/-! ## What is written for a character -/

/-- The ways in which a character is written between double quotes. -/
inductive WrittenAs (c : Char) : List Char → Prop where
  | short {letter : Char} (h : (c, letter) ∈ shortEscapes) : WrittenAs c ['\\', letter]
  | itself (hquote : c ≠ '"') (hslash : c ≠ '\\') (hlow : 0x20 ≤ c.toNat) (hhigh : c.toNat < 0x7F) :
      WrittenAs c [c]
  | digits {letter : Char} {count : Nat} (h : (letter, count) ∈ digitEscapes)
      (hc : c.toNat < Nat.pow 16 count) : WrittenAs c ('\\' :: letter :: hexDigits count c.toNat)

/-- Each character is written in one of the ways that can be read. -/
theorem writtenAs_escapedChar (c : Char) : WrittenAs c (escapedChar c) := by
  unfold escapedChar
  split
  · rename_i letter hlookup
    obtain ⟨before, after, heq, -⟩ := List.lookup_eq_some_iff.mp hlookup
    exact .short (by rw [heq]; simp)
  · rename_i hlookup
    have hnone := List.lookup_eq_none_iff.mp hlookup
    by_cases hplain : 0x20 ≤ c.toNat ∧ c.toNat < 0x7F
    · rw [if_pos hplain]
      have hquote : c ≠ '"' := by simpa using hnone ('"', '"') (by decide)
      have hslash : c ≠ '\\' := by simpa using hnone ('\\', '\\') (by decide)
      exact .itself hquote hslash hplain.1 hplain.2
    · rw [if_neg hplain]
      by_cases hbyte : c.toNat < 0x100
      · rw [if_pos hbyte]
        exact .digits (by decide) hbyte
      rw [if_neg hbyte]
      by_cases hshort : c.toNat < 0x10000
      · rw [if_pos hshort]
        exact .digits (by decide) hshort
      · rw [if_neg hshort]
        exact .digits (by decide) (toNat_lt_pow c)

/-- The characters of a written text: all of them can be printed, and are ASCII. -/
def isShown (c : Char) : Bool := 0x20 ≤ c.toNat && c.toNat < 0x7F

theorem isShown_short : ∀ e ∈ shortEscapes, isShown e.2 = true := by decide

theorem isShown_digitEscapes : ∀ e ∈ digitEscapes, isShown e.1 = true := by decide

theorem isShown_hexDigitChar : ∀ n, n < 16 → isShown (hexDigitChar n) = true := by decide

/-- However a character is written, what is written shows. -/
theorem isShown_of_writtenAs {c : Char} {cs : List Char} (h : WrittenAs c cs) :
    ∀ d ∈ cs, isShown d = true := by
  cases h with
  | short h =>
    intro d hd
    rcases List.mem_cons.mp hd with rfl | hd
    · decide
    · rw [List.mem_singleton.mp hd]
      exact isShown_short _ h
  | itself _ _ hlow hhigh =>
    intro d hd
    rw [List.mem_singleton.mp hd]
    simp [isShown, hlow, hhigh]
  | digits h _ =>
    intro d hd
    rcases List.mem_cons.mp hd with rfl | hd
    · decide
    rcases List.mem_cons.mp hd with rfl | hd
    · exact isShown_digitEscapes _ h
    · exact forall_mem_hexDigits (P := fun d => isShown d = true) isShown_hexDigitChar _ _ d hd

/-- What is written for a character does not begin with the quote. -/
theorem exists_cons_of_writtenAs {c : Char} {cs : List Char} (h : WrittenAs c cs) :
    ∃ d ds, cs = d :: ds ∧ d ≠ '"' := by
  cases h with
  | short _ => exact ⟨_, _, rfl, by decide⟩
  | itself hquote _ _ _ => exact ⟨_, _, rfl, hquote⟩
  | digits _ _ => exact ⟨_, _, rfl, by decide⟩

/-! ## Escapes -/

/-- One double quote on each side. -/
def doubleQuotes : QuoteStyle := ⟨'"', false, isQuote_double⟩

/-- The short escapes are among those that have names. -/
theorem mem_namedEscapes_short : ∀ e ∈ shortEscapes, e ∈ QuoteStyle.namedEscapes := by decide

/-- What is written for a character is one of the ways to write it. -/
theorem spelledAs_of_writtenAs {c : Char} {cs : List Char} (h : WrittenAs c cs) : doubleQuotes.SpelledAs c cs := by
  cases h with
  | short h => exact .named (mem_namedEscapes_short _ h)
  | itself hquote hslash _ _ => exact .itself hslash (Or.inr hquote)
  | @digits letter count h hc => exact .coded h hc (map_toUpper_hexDigits count c.toNat)

/-- A written text is one of the ways to write that text. -/
theorem spells_flatMap (cs : List Char) : doubleQuotes.Spells cs (cs.flatMap escapedChar) := by
  induction cs with
  | nil => exact .nil
  | cons c rest ih => exact .char (spelledAs_of_writtenAs (writtenAs_escapedChar c)) ih

/-! ## The closing quote -/

/-- An ordinary character does not end a string. -/
theorem closeString_other {c : Char} (hquote : c ≠ '"') (hslash : c ≠ '\\') (hline : c ≠ '\n')
    (cs : List Char) :
    Lexer.closeString '"' false false (c :: cs) = Lexer.closeString '"' false false cs := by
  rw [Lexer.closeString.eq_def]
  simp [Lexer.closingQuote?, hquote, hslash, hline]

/-- Nor does a character behind a backslash, whatever it is. -/
theorem closeString_escape {c : Char} (hreturn : c ≠ '\r') (cs : List Char) :
    Lexer.closeString '"' false false ('\\' :: c :: cs) = Lexer.closeString '"' false false cs := by
  rw [Lexer.closeString.eq_def]
  simp [Lexer.closingQuote?, hreturn]

/-- Nor do any number of ordinary characters. -/
theorem closeString_append {xs : List Char} (hxs : ∀ x ∈ xs, x ≠ '"' ∧ x ≠ '\\' ∧ x ≠ '\n')
    (cs : List Char) :
    Lexer.closeString '"' false false (xs ++ cs) = Lexer.closeString '"' false false cs := by
  induction xs with
  | nil => rfl
  | cons x rest ih =>
    obtain ⟨hquote, hslash, hline⟩ := hxs x List.mem_cons_self
    rw [List.cons_append, closeString_other hquote hslash hline,
      ih (fun y hy => hxs y (List.mem_cons_of_mem _ hy))]

theorem ne_return_short : ∀ e ∈ shortEscapes, e.2 ≠ '\r' := by decide

theorem ne_return_digitEscapes : ∀ e ∈ digitEscapes, e.1 ≠ '\r' := by decide

theorem ordinary_hexDigitChar : ∀ n, n < 16 → hexDigitChar n ≠ '"' ∧ hexDigitChar n ≠ '\\' ∧
    hexDigitChar n ≠ '\n' := by
  decide

/-- However a character is written, it does not end the string. -/
theorem closeString_writtenAs {c : Char} {cs : List Char} (h : WrittenAs c cs) (rest : List Char) :
    Lexer.closeString '"' false false (cs ++ rest) = Lexer.closeString '"' false false rest := by
  cases h with
  | short h => exact closeString_escape (ne_return_short _ h) rest
  | itself hquote hslash hlow _ =>
    have hline : c ≠ '\n' := by
      rintro rfl
      exact absurd hlow (by decide)
    exact closeString_other hquote hslash hline rest
  | @digits letter count h _ =>
    have hdigits := forall_mem_hexDigits
      (P := fun d => d ≠ '"' ∧ d ≠ '\\' ∧ d ≠ '\n') ordinary_hexDigitChar count c.toNat
    rw [List.cons_append, List.cons_append, closeString_escape (ne_return_digitEscapes _ h),
      closeString_append hdigits]

/-- The scanner finds the quote behind a written text. -/
theorem closeString_flatMap (cs rest : List Char) :
    Lexer.closeString '"' false false (cs.flatMap escapedChar ++ '"' :: rest) = some rest := by
  induction cs with
  | nil => rfl
  | cons c more ih =>
    rw [List.flatMap_cons, List.append_assoc, closeString_writtenAs (writtenAs_escapedChar c), ih]

/-! ## Literals -/

/-- A written text has one quote on each side: three in a row would need another one behind an empty text. -/
theorem quoteLength_quoted (cs : List Char) {rest : List Char} (hrest : rest.head? ≠ some '"') :
    quoteLength (quoted cs ++ rest) = 1 := by
  unfold quoted
  cases cs with
  | nil =>
    cases rest with
    | nil => rfl
    | cons c more =>
      have hne : '"' ≠ c := by
        rintro rfl
        exact hrest rfl
      simp [quoteLength, hne]
  | cons c more =>
    obtain ⟨d, ds, heq, hd⟩ := exists_cons_of_writtenAs (writtenAs_escapedChar c)
    rw [List.flatMap_cons, heq]
    exact quoteLength_single hd _

/-- The value of a written text is that text. -/
theorem decodeChars_quoted (cs : List Char) : decodeChars (quoted cs) = cs := by
  have hspells := spells_flatMap cs
  have hliteral : quoted cs = doubleQuotes.literal [] (cs.flatMap escapedChar) := by
    simp [quoted, QuoteStyle.literal, QuoteStyle.marks, doubleQuotes]
  rw [hliteral, QuoteStyle.decodeChars_literal (by simp) hspells.holds]
  exact unescape_spells hspells

/-- A written text is one token, whatever follows it but a quote. -/
theorem takeString_quoted (s : Lexer.State) (cs : List Char) {rest : List Char}
    (hrest : rest.head? ≠ some '"') :
    Lexer.takeString s [] (quoted cs ++ rest) =
      some ([s.emit (.str (String.ofList cs))], { s with joints := 0 }, rest) := by
  have hhead : (quoted cs ++ rest).head? = some '"' := rfl
  have hbody : (quoted cs ++ rest).drop 1 = cs.flatMap escapedChar ++ '"' :: rest := by
    simp [quoted]
  have hclose := closeString_flatMap cs rest
  simp only [Lexer.takeString, hhead, quoteLength_quoted cs hrest, hbody]
  simp [hclose, decodeChars_quoted]

end Source
end TableSpec
