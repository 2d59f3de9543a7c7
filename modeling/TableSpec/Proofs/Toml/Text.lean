import TableSpec.Toml.Printer
import TableSpec.Toml.Reader

/-!
# `Proofs.Toml.Text` — texts in quotes read back

A text is printed in one of four kinds of quotes, two of which have escapes. What the four have in common is
that every character of the text stands for itself, as a quote among at most two, or as an escape: `Written`
says which text a body is read as. The readers are inverted for all bodies of this kind, and the bodies that
are printed are shown to be of this kind.

## Contents
- `Written`: the bodies between quotes, and their texts.
- `lineBody_written`, `blockBody_written`: the two readers.
- `written_escaped`, `written_self`: the bodies that are printed, with and without escapes.
- `Quotes.Suits`, `suits_quotesFor`: quotes that a text can be put in; those that are chosen are such quotes.
- `readString_quotedWith`, `value_quoted`: a text with its quotes is read back, whatever it contains.
-/

namespace TableSpec
namespace Toml

variable {q c : Char} {multiline : Bool} {run n : Nat} {cs body rest : List Char}

/-- A body between quotes that is read as the text `cs`, after `run` quotes in a row. Unescaped quotes are
    for bodies of several lines only, and there are never three in a row. -/
inductive Written (q : Char) (multiline : Bool) : Nat → List Char → List Char → Prop where
  | nil {run : Nat} : Written q multiline run [] []
  | quote {run : Nat} {cs body : List Char} (hmultiline : multiline = true) (hrun : run < 2)
      (hrest : Written q multiline (run + 1) cs body) : Written q multiline run (q :: cs) (q :: body)
  | itself {run : Nat} {c : Char} {cs body : List Char} (hquote : c ≠ q) (hslash : ¬(c = '\\' ∧ q = '"'))
      (hc : isOnLine c = true ∨ multiline = true ∧ c = '\n') (hrest : Written q multiline 0 cs body) :
      Written q multiline run (c :: cs) (c :: body)
  | escape {run : Nat} {c letter : Char} {cs more body : List Char} (hquote : q = '"')
      (hletter : letter ∉ [' ', '\t', '\n', '\r'])
      (hread : ∀ rest, readEscape (letter :: (more ++ rest)) = some (c, rest))
      (hrest : Written q multiline 0 cs body) :
      Written q multiline run (c :: cs) ('\\' :: letter :: (more ++ body))

/-! ## Reading one line -/

/-- A text on one line is read up to its quote. -/
theorem lineBody_written (h : Written q false run cs body) (rest : List Char) :
    ∀ n, body.length < n → lineBody q n (body ++ q :: rest) = some (cs, rest) := by
  induction h with
  | nil =>
    intro n hn
    obtain ⟨m, rfl⟩ := Nat.exists_eq_add_one.mpr hn
    show (if q = q then _ else _) = _
    rw [if_pos rfl]
  | quote hmultiline => contradiction
  | @itself run c cs body hquote hslash hc _ ih =>
    intro n hn
    obtain ⟨m, rfl⟩ := Nat.exists_eq_add_one.mpr (Nat.zero_lt_of_lt hn)
    have hline : isOnLine c = true := hc.resolve_right (by simp)
    have hslash' : ¬(decide (c = '\\') && decide (q = '"')) = true := by simpa using hslash
    rw [List.cons_append, lineBody, if_neg hquote, if_neg hslash', if_pos hline,
      ih m (Nat.lt_of_succ_lt_succ hn)]
    rfl
  | @escape run c letter cs more body hquote _ hread _ ih =>
    intro n hn
    obtain ⟨m, rfl⟩ := Nat.exists_eq_add_one.mpr (Nat.zero_lt_of_lt hn)
    subst hquote
    have hm : body.length < m := by
      simp only [List.length_cons, List.length_append] at hn
      omega
    rw [List.cons_append, lineBody, if_neg (by decide), if_pos (by decide), List.cons_append, List.append_assoc,
      hread, Option.bind_some, ih m hm]
    rfl

/-! ## Reading several lines -/

/-- A line ends at a newline, or at a carriage return in front of one, and nowhere else. -/
theorem lineEnd?_of_ne (hline : c ≠ '\n') (hreturn : c ≠ '\r') (cs : List Char) : lineEnd? (c :: cs) = none := by
  unfold lineEnd?
  split
  · rename_i heq
    exact absurd (List.cons.inj heq).1 hline
  · rename_i heq
    exact absurd (List.cons.inj heq).1 hreturn
  · rfl

/-- A character that stands on a line does not end it. -/
theorem lineEnd?_cons (hc : isOnLine c = true) (cs : List Char) : lineEnd? (c :: cs) = none := by
  refine lineEnd?_of_ne ?_ ?_ cs <;>
  · rintro rfl
    exact absurd hc (by decide)

/-- The letter of an escape joins no lines. -/
theorem joinedLine?_letter {letter : Char} (h : letter ∉ [' ', '\t', '\n', '\r']) (cs : List Char) :
    joinedLine? (letter :: cs) = none := by
  simp only [List.mem_cons, List.not_mem_nil, or_false, not_or] at h
  obtain ⟨hspace, htab, hline, hreturn⟩ := h
  have hblanks : skipBlanks (letter :: cs) = letter :: cs := by simp [skipBlanks, hspace, htab]
  rw [joinedLine?, hblanks, lineEnd?_of_ne hline hreturn]
  rfl

/-- How many quotes are in front. -/
def leading (q : Char) (cs : List Char) : Nat := (cs.takeWhile (· == q)).length

@[simp] theorem leading_cons_self (q : Char) (cs : List Char) : leading q (q :: cs) = leading q cs + 1 := by
  simp [leading]

theorem leading_cons_of_ne (h : c ≠ q) (cs : List Char) : leading q (c :: cs) = 0 := by
  simp [leading, h]

/-- Quotes in a row are counted up to the first other character. -/
theorem leading_append (h : rest.head? ≠ some q) (k : Nat) : leading q (List.replicate k q ++ rest) = k := by
  induction k with
  | zero =>
    cases rest with
    | nil => rfl
    | cons d rest => exact leading_cons_of_ne (by simpa using h) rest
  | succ k ih => rw [List.replicate_succ, List.cons_append, leading_cons_self, ih]

/-- With those before it, a body never begins with three quotes. -/
theorem leading_written (h : Written q multiline run cs body) (hrun : run ≤ 2) : run + leading q body ≤ 2 := by
  induction h with
  | nil => exact hrun
  | quote _ hlt _ ih =>
    have := ih hlt
    rw [leading_cons_self]
    omega
  | itself hquote => rwa [leading_cons_of_ne hquote]
  | escape hquote =>
    subst hquote
    rwa [leading_cons_of_ne (by decide)]

/-- A body is nothing but quotes, or its first other character ends the row of them. -/
theorem written_cases (h : Written q multiline run cs body) :
    (body = List.replicate (leading q body) q ∧ cs = body) ∨ ∀ rest, leading q (body ++ rest) = leading q body := by
  induction h with
  | nil => exact Or.inl ⟨rfl, rfl⟩
  | quote _ _ _ ih =>
    rw [leading_cons_self, List.replicate_succ]
    rcases ih with ⟨hbody, hcs⟩ | hother
    · exact Or.inl ⟨congrArg (q :: ·) hbody, congrArg (q :: ·) hcs⟩
    · refine Or.inr fun rest => ?_
      rw [List.cons_append, leading_cons_self, hother rest]
  | itself hquote =>
    refine Or.inr fun rest => ?_
    rw [List.cons_append, leading_cons_of_ne hquote, leading_cons_of_ne hquote]
  | escape hquote =>
    subst hquote
    refine Or.inr fun rest => ?_
    rw [List.cons_append, leading_cons_of_ne (by decide), leading_cons_of_ne (by decide)]

/-- One step of the reader of several lines: three or more quotes end the text, up to two of which belong to it. -/
theorem blockBody_succ (n : Nat) (c : Char) (cs : List Char) :
    blockBody q (n + 1) (c :: cs) =
      if 3 ≤ leading q (c :: cs) then
        some (List.replicate (min (leading q (c :: cs) - 3) 2) q,
          (c :: cs).drop (min (leading q (c :: cs) - 3) 2 + 3))
      else if c = '\\' && q = '"' then
        match joinedLine? cs with
        | some rest => blockBody q n rest
        | none => (readEscape cs).bind (fun r => before r.1 (blockBody q n r.2))
      else if isOnLine c then before c (blockBody q n cs)
      else (lineEnd? (c :: cs)).bind (fun rest => before '\n' (blockBody q n rest)) := rfl

/-- Up to two quotes in front of the three at the end belong to the text. -/
theorem blockBody_quotes (hrest : rest.head? ≠ some q) {k : Nat} (hk : k ≤ 2) (n : Nat) :
    blockBody q (n + 1) (List.replicate k q ++ q :: q :: q :: rest) = some (List.replicate k q, rest) := by
  have hjoin : List.replicate k q ++ q :: q :: q :: rest = List.replicate (k + 3) q ++ rest := by
    rw [← List.replicate_append_replicate, List.append_assoc]
    rfl
  have hleading := leading_append hrest (k + 3)
  rw [hjoin]
  rw [List.replicate_succ, List.cons_append] at hleading ⊢
  rw [blockBody_succ, hleading, if_pos (by omega)]
  have hown : min (k + 3 - 3) 2 = k := by omega
  have hdrop : (q :: (List.replicate (k + 2) q ++ rest)).drop (k + 3) = rest := by
    rw [← List.cons_append, ← List.replicate_succ, List.drop_left' (List.length_replicate)]
  rw [hown, hdrop]

/-- A body of nothing but quotes is read at once. -/
theorem blockBody_all_quotes (hrest : rest.head? ≠ some q) (h : Written q multiline run cs body) (hrun : run ≤ 2)
    (hbody : body = List.replicate (leading q body) q) (hcs : cs = body) (hn : body.length < n) :
    blockBody q n (body ++ q :: q :: q :: rest) = some (cs, rest) := by
  obtain ⟨m, rfl⟩ := Nat.exists_eq_add_one.mpr (Nat.zero_lt_of_lt hn)
  have hk : leading q body ≤ 2 := by
    have := leading_written h hrun
    omega
  rw [hcs]
  generalize leading q body = k at hbody hk
  rw [hbody]
  exact blockBody_quotes hrest hk m

/-- A text of several lines is read up to its three quotes. -/
theorem blockBody_written (hq : isOnLine q = true) (hrest : rest.head? ≠ some q)
    (h : Written q multiline run cs body) (hrun : run ≤ 2) :
    ∀ n, body.length < n → blockBody q n (body ++ q :: q :: q :: rest) = some (cs, rest) := by
  induction h with
  | @nil run =>
    have hnil : Written q multiline run [] [] := .nil
    exact fun n => blockBody_all_quotes hrest hnil hrun rfl rfl
  | @quote run cs body hmultiline hlt hwritten ih =>
    -- only a row of quotes that reaches the end runs into the three that end the text
    intro n hn
    have hall := Written.quote hmultiline hlt hwritten
    rcases written_cases hall with ⟨hbody, hcs⟩ | hother
    · exact blockBody_all_quotes hrest hall hrun hbody hcs hn
    obtain ⟨m, rfl⟩ := Nat.exists_eq_add_one.mpr (Nat.zero_lt_of_lt hn)
    have hfew : ¬3 ≤ leading q (q :: (body ++ q :: q :: q :: rest)) := by
      have := leading_written hall hrun
      rw [← List.cons_append, hother]
      omega
    have hslash : ¬(decide (q = '\\') && decide (q = '"')) = true := by
      rw [Bool.and_eq_true, decide_eq_true_eq, decide_eq_true_eq]
      rintro ⟨rfl, h⟩
      exact absurd h (by decide)
    rw [List.cons_append, blockBody_succ, if_neg hfew, if_neg hslash, if_pos hq,
      ih hlt m (Nat.lt_of_succ_lt_succ hn)]
    rfl
  | @itself run c cs body hquote hslash hc _ ih =>
    intro n hn
    obtain ⟨m, rfl⟩ := Nat.exists_eq_add_one.mpr (Nat.zero_lt_of_lt hn)
    have hslash' : ¬(decide (c = '\\') && decide (q = '"')) = true := by simpa using hslash
    have hfew : ¬3 ≤ leading q (c :: (body ++ q :: q :: q :: rest)) := by simp [leading_cons_of_ne hquote]
    have hbody := ih (Nat.zero_le 2) m (Nat.lt_of_succ_lt_succ hn)
    rw [List.cons_append, blockBody_succ, if_neg hfew, if_neg hslash']
    by_cases hline : isOnLine c = true
    · rw [if_pos hline, hbody]
      rfl
    · obtain ⟨-, rfl⟩ := hc.resolve_left hline
      rw [if_neg hline]
      show before '\n' (blockBody q m _) = _
      rw [hbody]
      rfl
  | @escape run c letter cs more body hquote hletter hread _ ih =>
    intro n hn
    obtain ⟨m, rfl⟩ := Nat.exists_eq_add_one.mpr (Nat.zero_lt_of_lt hn)
    subst hquote
    have hm : body.length < m := by
      simp only [List.length_cons, List.length_append] at hn
      omega
    rw [List.cons_append, blockBody_succ, if_neg (by simp [leading_cons_of_ne]), if_pos (by decide),
      List.cons_append, List.append_assoc, joinedLine?_letter hletter]
    show (readEscape _).bind _ = _
    rw [hread, Option.bind_some, ih (Nat.zero_le 2) m hm]
    rfl

/-! ## Bodies with escapes -/

/-- Of what needs no escape only a newline does not stand on a line. -/
theorem isOnLine_or_eq_of_not_isControl (h : isControl c = false) : isOnLine c = true ∨ c = '\n' := by
  by_cases hline : c = '\n'
  · exact Or.inr hline
  by_cases htab : c = '\t'
  · exact Or.inl (by rw [htab]; rfl)
  have hnot : ¬(c < ' ') ∧ c ≠ '\x7f' := by simpa [isControl, hline, htab] using h
  exact Or.inl (by simp [isOnLine, Char.not_lt.mp hnot.1, hnot.2])

theorem toNat_lt_of_isControl (h : isControl c = true) : c.toNat < 128 := by
  simp only [isControl, Bool.or_eq_true, Bool.and_eq_true, decide_eq_true_eq] at h
  rcases h with ⟨⟨hlt, -⟩, -⟩ | rfl
  · have : c.toNat < 32 := hlt
    omega
  · decide

/-- Two digits with zeros in front of them are read as the code. -/
theorem hexNumber?_control : ∀ n, n < 128 →
    hexNumber? 4 0 ['0', '0', hexDigitChar (n / 16), hexDigitChar (n % 16)] = some n := by decide

/-- An escape with digits is read as the character that it was made from. -/
theorem readEscape_control (h : isControl c = true) (rest : List Char) :
    readEscape ('u' :: (['0', '0', hexDigitChar (c.toNat / 16), hexDigitChar (c.toNat % 16)] ++ rest)) =
      some (c, rest) := by
  have hnumber := hexNumber?_control c.toNat (toNat_lt_of_isControl h)
  simp only [hexNumber?] at hnumber
  have hchar : hexChar? 4 (['0', '0', hexDigitChar (c.toNat / 16), hexDigitChar (c.toNat % 16)] ++ rest) = some c := by
    simp only [hexChar?, List.cons_append, List.nil_append, hexNumber?, hnumber, Option.bind_some, charOfCode?_toNat]
  show (hexChar? 4 _).map _ = _
  rw [hchar]
  rfl

/-- An escape with a letter is read as the character of the letter. -/
theorem readEscape_letter {letter : Char} (h : letterEscapes.lookup letter = some c) (rest : List Char) :
    readEscape (letter :: ([] ++ rest)) = some (c, rest) := by
  rw [readEscape, h]
  rfl

/-- A character between double quotes, which is no quote itself. -/
theorem written_escapeChar (hquote : c ≠ '"') (hline : c = '\n' → multiline = true)
    (h : Written '"' multiline 0 cs body) : Written '"' multiline run (c :: cs) (escapeChar c ++ body) := by
  have hletter : ∀ letter, letterEscapes.lookup letter = some c → letter ∉ [' ', '\t', '\n', '\r'] →
      Written '"' multiline run (c :: cs) (['\\', letter] ++ body) := by
    intro letter hlookup hletter
    exact .escape rfl hletter (readEscape_letter hlookup) h
  unfold escapeChar
  split
  · rename_i hc
    exact hletter '\\' (by rw [hc]; rfl) (by decide)
  rename_i hslash
  split
  · rename_i hc
    exact hletter 't' (by rw [hc]; rfl) (by decide)
  split
  · rename_i hc
    exact hletter 'b' (by rw [hc]; rfl) (by decide)
  split
  · rename_i hc
    exact hletter 'f' (by rw [hc]; rfl) (by decide)
  split
  · rename_i hc
    exact hletter 'r' (by rw [hc]; rfl) (by decide)
  split
  · rename_i hcontrol
    exact .escape rfl (by decide) (readEscape_control hcontrol) h
  · rename_i hcontrol
    refine .itself hquote (fun hc => hslash hc.1) ?_ h
    rcases isOnLine_or_eq_of_not_isControl (Bool.eq_false_iff.mpr hcontrol) with hon | rfl
    · exact Or.inl hon
    · exact Or.inr ⟨hline rfl, rfl⟩

/-- How many quotes in a row may stand unescaped. -/
def mostQuotes (multiline : Bool) : Nat := if multiline then 2 else 0

/-- Quotes stand unescaped on several lines only, two in a row at most. -/
theorem of_lt_mostQuotes (h : run < mostQuotes multiline) : multiline = true ∧ run < 2 := by
  cases multiline with
  | false => exact absurd h (Nat.not_lt_zero run)
  | true => exact ⟨rfl, h⟩

/-- Every text can be written between double quotes. -/
theorem written_escaped (multiline : Bool) (run : Nat) (cs : List Char) :
    Written '"' multiline run cs (escaped multiline (mostQuotes multiline) run cs) := by
  induction cs generalizing run with
  | nil => exact .nil
  | cons c cs ih =>
    rw [escaped]
    by_cases hquote : c = '"'
    · subst hquote
      rw [if_pos rfl]
      by_cases hrun : run < mostQuotes multiline
      · rw [if_pos hrun]
        obtain ⟨hmultiline, hlt⟩ := of_lt_mostQuotes hrun
        exact .quote hmultiline hlt (ih (run + 1))
      · rw [if_neg hrun]
        exact .escape rfl (by decide) (readEscape_letter rfl) (ih 0)
    rw [if_neg hquote]
    by_cases hline : (decide (c = '\n') && !multiline) = true
    · rw [if_pos hline]
      have hc : c = '\n' := by simp_all
      subst hc
      exact .escape rfl (by decide) (readEscape_letter rfl) (ih 0)
    · rw [if_neg hline]
      exact written_escapeChar hquote (fun hc => by simpa [hc] using hline) (ih 0)

/-! ## Bodies without escapes -/

/-- The count only goes up. -/
theorem le_longestRun (c : Char) (run : Nat) (cs : List Char) : run ≤ longestRun c run cs := by
  induction cs generalizing run with
  | nil => exact Nat.le_refl run
  | cons d cs ih =>
    rw [longestRun]
    split
    · exact Nat.le_trans (Nat.le_succ run) (ih (run + 1))
    · exact Nat.le_max_left run _

/-- A text without control characters, in which few quotes follow each other, can be written as it is. -/
theorem written_self (hplain : cs.any isControl = false) (hline : multiline = true ∨ '\n' ∉ cs)
    (hrun : longestRun '\'' run cs ≤ mostQuotes multiline) : Written '\'' multiline run cs cs := by
  induction cs generalizing run with
  | nil => exact .nil
  | cons c cs ih =>
    obtain ⟨hc, hplain⟩ := Bool.or_eq_false_iff.mp hplain
    have hrest : multiline = true ∨ '\n' ∉ cs := hline.imp_right fun h hmem => h (List.mem_cons_of_mem c hmem)
    rw [longestRun] at hrun
    by_cases hquote : c = '\''
    · subst hquote
      rw [if_pos rfl] at hrun
      obtain ⟨hmultiline, hlt⟩ := of_lt_mostQuotes (Nat.le_trans (le_longestRun '\'' (run + 1) cs) hrun)
      exact .quote hmultiline hlt (ih hplain hrest hrun)
    · rw [if_neg hquote] at hrun
      refine .itself hquote (by simp) ?_ (ih hplain hrest (Nat.le_trans (Nat.le_max_right run _) hrun))
      rcases isOnLine_or_eq_of_not_isControl hc with hon | rfl
      · exact Or.inl hon
      · exact Or.inr ⟨hline.resolve_right (by simp), rfl⟩

/-! ## The choice of quotes -/

namespace Quotes

/-- A text can be put in quotes of a kind: anything where there are escapes, and elsewhere what needs none. -/
def Suits (kind : Quotes) (cs : List Char) : Prop :=
  kind.hasEscapes = true ∨
    cs.any isControl = false ∧ (kind.isTriple = true ∨ '\n' ∉ cs) ∧ longestRun '\'' 0 cs ≤ mostQuotes kind.isTriple

/-- The body of a text in quotes of a kind. -/
def between (kind : Quotes) (cs : List Char) : List Char :=
  if kind.hasEscapes then escaped kind.isTriple (mostQuotes kind.isTriple) 0 cs else cs

/-- Both kinds of quotes stand on a line. -/
theorem isOnLine_char (kind : Quotes) : isOnLine kind.char = true := by
  cases kind <;> rfl

/-- A text between quotes that suit it is written as they ask for. -/
theorem written_between {kind : Quotes} (h : kind.Suits cs) : Written kind.char kind.isTriple 0 cs (kind.between cs) := by
  cases kind with
  | double | tripleDouble => exact written_escaped _ 0 cs
  | single | tripleSingle =>
    obtain ⟨hplain, hline, hrun⟩ := h.resolve_left (by decide)
    exact written_self hplain hline hrun

end Quotes

/-- **The quotes that are chosen suit the text.** One case for each of the choices, the last of which escapes what
    it has to. -/
theorem suits_quotesFor (cs : List Char) : (quotesFor cs).Suits cs := by
  unfold quotesFor
  dsimp only
  split
  · exact Or.inl rfl
  split
  · rename_i h
    simp only [Bool.and_eq_true, decide_eq_true_eq, Bool.not_eq_true', List.contains_eq_mem, decide_eq_false_iff_not] at h
    obtain ⟨⟨hplain, hnone⟩, hline⟩ := h
    exact Or.inr ⟨hplain, Or.inr hline, Nat.le_of_eq hnone⟩
  split
  · exact Or.inl rfl
  split
  · rename_i h
    simp only [Bool.and_eq_true, decide_eq_true_eq, Bool.not_eq_true'] at h
    exact Or.inr ⟨h.1, Or.inl rfl, h.2⟩
  split <;> exact Or.inl rfl

/-! ## Texts with their quotes -/

/-- Only a text with a line end has a body that begins with one. -/
theorem lineEnd?_body (hq : isOnLine q = true) (h : Written q multiline run cs body) (hline : '\n' ∉ cs)
    (rest : List Char) : lineEnd? (body ++ q :: rest) = none := by
  cases h with
  | nil | quote => exact lineEnd?_cons hq _
  | itself hquote hslash hc =>
    refine lineEnd?_cons (hc.resolve_right ?_) _
    rintro ⟨-, rfl⟩
    exact hline List.mem_cons_self
  | escape => exact lineEnd?_cons (by decide) _

/-- A text on one line does not begin with its quote. -/
theorem head?_body (h : Written q false run cs body) : body.head? ≠ some q := by
  cases h with
  | nil => simp
  | quote hmultiline => contradiction
  | itself hquote => simpa using hquote
  | escape hquote =>
    subst hquote
    simp

/-- A text on one line is read up to its quote, which no other one follows. -/
theorem readString_line (h : Written q false 0 cs body) (hrest : rest.head? ≠ some q) :
    readString q (body ++ q :: rest) = some (cs, rest) := by
  have hread := lineBody_written h rest ((body ++ q :: rest).length + 1) (by rw [List.length_append]; omega)
  -- two quotes at the start would begin a text of several lines
  have hfirst : ∀ a b more, body ++ q :: rest = a :: b :: more → ¬(a = q ∧ b = q) := by
    rintro a b more heq ⟨rfl, rfl⟩
    cases body with
    | nil => exact hrest (by simp_all)
    | cons d body => exact head?_body h (by simp_all)
  unfold readString
  split
  · rename_i a b more heq
    have hnot : ¬(decide (a = q) && decide (b = q)) = true := by simpa using hfirst a b more heq
    rw [if_neg hnot]
    exact hread
  · exact hread

/-- A text on several lines is read up to its three quotes. A newline behind the first three is not part of it. -/
theorem readString_block (hq : isOnLine q = true) (h : Written q true 0 cs body) (hrest : rest.head? ≠ some q) :
    readString q (q :: q :: ((if '\n' ∈ cs then ['\n'] else []) ++ body ++ q :: q :: q :: rest)) = some (cs, rest) := by
  have hread := blockBody_written hq hrest h (Nat.zero_le 2) ((body ++ q :: q :: q :: rest).length + 1) (by rw [List.length_append]; omega)
  have hstart : (lineEnd? ((if '\n' ∈ cs then ['\n'] else []) ++ body ++ q :: q :: q :: rest)).getD
      ((if '\n' ∈ cs then ['\n'] else []) ++ body ++ q :: q :: q :: rest) = body ++ q :: q :: q :: rest := by
    by_cases hline : '\n' ∈ cs
    · rw [if_pos hline]
      rfl
    · rw [if_neg hline, List.nil_append, lineEnd?_body hq h hline]
      rfl
  rw [readString, if_pos (by simp)]
  dsimp only
  rw [hstart, hread]

/-- **A text with quotes that suit it is read back.** -/
theorem readString_quotedWith {kind : Quotes} (h : kind.Suits cs) (hrest : rest.head? ≠ some kind.char) :
    ∃ more, quotedWith kind cs ++ rest = kind.char :: more ∧ readString kind.char more = some (cs, rest) := by
  have hwritten := kind.written_between h
  have hbody : quotedWith kind cs = kind.mark ++ (if kind.isTriple && cs.contains '\n' then ['\n'] else []) ++
      kind.between cs ++ kind.mark := rfl
  rw [hbody, Quotes.mark]
  cases htriple : kind.isTriple with
  | false =>
    rw [htriple] at hwritten
    refine ⟨kind.between cs ++ kind.char :: rest, by simp, readString_line hwritten hrest⟩
  | true =>
    rw [htriple] at hwritten
    refine ⟨_, ?_, readString_block kind.isOnLine_char hwritten hrest⟩
    simp [List.replicate]

/-- **Every text is read back from the quotes that are chosen for it.** -/
theorem value_quoted (s : String) (hrest : rest.head? ≠ some '"' ∧ rest.head? ≠ some '\'') (n : Nat) :
    value (n + 1) (quoted s ++ rest) = some (string s, rest) := by
  have hkind : ∀ kind : Quotes, kind.char = '"' ∨ kind.char = '\'' := by
    intro kind
    cases kind <;> simp [Quotes.char]
  have hnext : rest.head? ≠ some (quotesFor s.toList).char := by
    rcases hkind (quotesFor s.toList) with h | h <;> rw [h]
    · exact hrest.1
    · exact hrest.2
  obtain ⟨more, hmore, hread⟩ := readString_quotedWith (suits_quotesFor s.toList) hnext
  have hquote : (decide ((quotesFor s.toList).char = '"') || decide ((quotesFor s.toList).char = '\'')) = true := by
    simpa using hkind (quotesFor s.toList)
  rw [quoted, hmore, value, if_pos hquote, hread]
  simp [String.ofList_toList]

end Toml
end TableSpec
