import TableSpec.Proofs.Source.Spelling

/-!
# `Proofs.Source.BrokenEscapes` — what looks like an escape and is none

A backslash begins no escape where the body ends behind it, where no letter of an escape follows, where digits are
missing, and where the digits name no character (`Broken`). Such a backslash is kept, with all that follows it. So a
body stays as it is just when all of its backslashes are of this kind (`unescape_eq_self_iff`), and behind text that
is read in the ordinary way such a body is kept as well.

To know whether digits are missing one has to look at what follows. A reader that goes through the body once has taken
the digits already when it finds that one is missing, and has to give back what it took. It comes to the same
(`onePass_eq`).

## Contents
- `leadingDigits`, `IsNameless`, `Broken`, `Verbatim`.
- `readEscape_eq_none_iff`: a backslash begins no escape just when what follows is broken.
- `length_unescape_le`, `unescape_eq_self_iff`.
- `passEscape`, `onePass`: the reader that goes through the body once. `unescape_passEscape`, `onePass_eq`.
- `unescape_keeps_broken`: all of it.
-/

namespace TableSpec

open QuoteStyle (Spells codeEscapes)

/-! ## Broken escapes -/

def isHexDigit (c : Char) : Bool := (hexDigit? c).isSome

/-- The hexadecimal digits in front of a text, as many as there are but no more than `count`. -/
def leadingDigits (count : Nat) (cs : List Char) : List Char := (cs.take count).takeWhile isHexDigit

/-- The characters behind a backslash that begin an escape. -/
def escapeLetters : List Char := ['n', 't', 'r', '0', '\\', '\'', '"', '\n', 'x', 'u', 'U']

/-- A surrogate, or a number beyond all characters. -/
def IsNameless (code : Nat) : Prop := 0xD800 ≤ code ∧ code ≤ 0xDFFF ∨ 0x10FFFF < code

/-- What follows a backslash that begins no escape. -/
inductive Broken : List Char → Prop where
  | last : Broken []
  | other {c : Char} {cs : List Char} (h : c ∉ escapeLetters) : Broken (c :: cs)
  | short {letter : Char} {count : Nat} {cs : List Char} (h : (letter, count) ∈ codeEscapes)
      (hdigits : (leadingDigits count cs).length < count) : Broken (letter :: cs)
  | nameless {letter : Char} {count code : Nat} {cs : List Char} (h : (letter, count) ∈ codeEscapes)
      (hcode : hexNumber? count 0 cs = some code) (hnone : IsNameless code) : Broken (letter :: cs)

/-- No backslash of the body begins an escape. -/
def Verbatim (body : List Char) : Prop := ∀ rest, '\\' :: rest <:+ body → Broken rest

variable {c : Char} {cs : List Char} {count acc code : Nat}

theorem verbatim_nil : Verbatim [] := by
  intro rest h
  exact absurd (List.suffix_nil.mp h) (List.cons_ne_nil _ _)

/-- A body is verbatim when its first character begins no escape and the rest is verbatim. -/
theorem verbatim_cons : Verbatim (c :: cs) ↔ (c = '\\' → Broken cs) ∧ Verbatim cs := by
  constructor
  · intro h
    constructor
    · rintro rfl
      exact h cs List.suffix_rfl
    · intro rest hrest
      exact h rest (hrest.trans (List.suffix_cons c cs))
  · rintro ⟨hfirst, hcs⟩ rest hrest
    rcases List.suffix_cons_iff.mp hrest with heq | hrest
    · obtain ⟨rfl, rfl⟩ := List.cons.inj heq
      exact hfirst rfl
    · exact hcs rest hrest

/-! ## What begins no escape -/

/-- There is a number just when there are enough digits. -/
theorem hexNumber?_eq_none_iff : hexNumber? count acc cs = none ↔ (leadingDigits count cs).length < count := by
  induction count generalizing acc cs with
  | zero => simp [hexNumber?]
  | succ count ih =>
    cases cs with
    | nil => simp [hexNumber?, leadingDigits]
    | cons c cs =>
      unfold leadingDigits isHexDigit
      rw [hexNumber?, List.take_succ_cons, List.takeWhile_cons]
      cases hexDigit? c with
      | none => simp
      | some d =>
        rw [Option.bind_some, ih, Option.isSome_some, if_pos rfl, List.length_cons, Nat.succ_lt_succ_iff]
        rfl

/-- No character has the number of a surrogate, or one beyond Unicode. -/
theorem charOfCode?_eq_none_iff : charOfCode? code = none ↔ IsNameless code := by
  have hrange : ¬code.isValidChar ↔ IsNameless code := by
    unfold Nat.isValidChar IsNameless
    omega
  by_cases hvalid : code.isValidChar
  · rw [charOfCode?, dif_pos hvalid]
    exact iff_of_false (Option.some_ne_none _) fun h => hrange.mpr h hvalid
  · rw [charOfCode?, dif_neg hvalid]
    exact iff_of_true rfl (hrange.mp hvalid)

/-- No character is named when there are too few digits, or when their number has none. -/
theorem hexChar?_eq_none_iff : hexChar? count cs = none ↔
    (leadingDigits count cs).length < count ∨ ∃ code, hexNumber? count 0 cs = some code ∧ IsNameless code := by
  unfold hexChar?
  rw [← hexNumber?_eq_none_iff]
  cases hexNumber? count 0 cs with
  | none => simp
  | some code => simp [charOfCode?_eq_none_iff]

theorem escapeLetters_eq : escapeLetters = plainEscapes.map Prod.fst ++ codeEscapes.map Prod.fst := rfl

theorem lookup_plainEscapes : ∀ e ∈ plainEscapes, plainEscapes.lookup e.1 = some e.2 := by decide

theorem mem_escapeLetters_plain : ∀ e ∈ plainEscapes, e.1 ∈ escapeLetters := by
  intro e he
  rw [escapeLetters_eq]
  exact List.mem_append_left _ (List.mem_map_of_mem he)

theorem mem_escapeLetters_digits : ∀ e ∈ digitEscapes, e.1 ∈ escapeLetters := by
  intro e he
  rw [escapeLetters_eq]
  exact List.mem_append_right _ (List.mem_map_of_mem he)

/-- What is no letter of an escape is in none of the tables. -/
theorem lookup_eq_none_of_not_mem {α : Type} {table : List (Char × α)} (htable : ∀ e ∈ table, e.1 ∈ escapeLetters)
    (hc : c ∉ escapeLetters) : table.lookup c = none := by
  rw [List.lookup_eq_none_iff]
  intro e he
  rw [bne_iff_ne]
  rintro rfl
  exact hc (htable e he)

/-- Such a letter says how many digits name the character. -/
theorem readEscape_coded (h : (c, count) ∈ codeEscapes) (cs : List Char) :
    readEscape (c :: cs) = (hexChar? count cs).map (fun d => ([d], cs.drop count)) := by
  obtain ⟨hplain, hdigits⟩ := lookup_codeEscapes _ h
  simp only [readEscape, hplain, hdigits]

/-- A character behind a backslash stands for an escape, says how many digits follow, or is no letter of an
    escape. -/
theorem letter_cases (c : Char) :
    (∃ e ∈ plainEscapes, plainEscapes.lookup c = some e.2) ∨ (∃ count, (c, count) ∈ codeEscapes) ∨
      c ∉ escapeLetters := by
  by_cases hc : c ∈ escapeLetters
  · rw [escapeLetters_eq] at hc
    rcases List.mem_append.mp hc with hc | hc
    · obtain ⟨e, he, rfl⟩ := List.mem_map.mp hc
      exact Or.inl ⟨e, he, lookup_plainEscapes e he⟩
    · obtain ⟨⟨letter, count⟩, hcode, rfl⟩ := List.mem_map.mp hc
      exact Or.inr (Or.inl ⟨count, hcode⟩)
  · exact Or.inr (Or.inr hc)

/-- A backslash begins no escape just when what follows is broken. -/
theorem readEscape_eq_none_iff : readEscape cs = none ↔ Broken cs := by
  constructor
  · intro h
    cases cs with
    | nil => exact .last
    | cons c cs =>
      rcases letter_cases c with ⟨e, -, hplain⟩ | ⟨count, hcode⟩ | hc
      · simp [readEscape, hplain] at h
      · rw [readEscape_coded hcode, Option.map_eq_none_iff, hexChar?_eq_none_iff] at h
        rcases h with hdigits | ⟨code, hnumber, hnone⟩
        · exact .short hcode hdigits
        · exact .nameless hcode hnumber hnone
      · exact .other hc
  · intro h
    cases h with
    | last => rfl
    | other hc =>
      simp only [readEscape, lookup_eq_none_of_not_mem mem_escapeLetters_plain hc,
        lookup_eq_none_of_not_mem mem_escapeLetters_digits hc]
    | short hcode hdigits =>
      rw [readEscape_coded hcode, hexChar?_eq_none_iff.mpr (Or.inl hdigits), Option.map_none]
    | nameless hcode hnumber hnone =>
      rw [readEscape_coded hcode, hexChar?_eq_none_iff.mpr (Or.inr ⟨_, hnumber, hnone⟩), Option.map_none]

/-! ## Bodies that stay as they are -/

theorem length_le_one : ∀ e ∈ plainEscapes, e.2.length ≤ 1 := by decide

/-- An escape stands for less than is written. -/
theorem length_readEscape {out rest : List Char} (h : readEscape cs = some (out, rest)) :
    out.length + rest.length ≤ cs.length := by
  have hrest := readEscape_length h
  have hout : out.length ≤ 1 := by
    cases cs with
    | nil => cases h
    | cons c cs =>
      rcases letter_cases c with ⟨e, he, hplain⟩ | ⟨count, hcode⟩ | hc
      · simp only [readEscape, hplain] at h
        cases h
        exact length_le_one e he
      · rw [readEscape_coded hcode] at h
        obtain ⟨d, -, heq⟩ := Option.map_eq_some_iff.mp h
        cases heq
        exact Nat.le_refl 1
      · rw [readEscape_eq_none_iff.mpr (.other hc)] at h
        cases h
  omega

/-- Reading makes no body longer. -/
theorem length_unescape_le (cs : List Char) : (unescape cs).length ≤ cs.length := by
  fun_induction unescape cs with
  | case1 => exact Nat.le_refl 0
  | case2 cs out rest hread hlt ih =>
    have hread := length_readEscape hread
    rw [List.length_append, List.length_cons]
    omega
  | case3 cs hread ih | case4 c cs hc ih =>
    rw [List.length_cons, List.length_cons]
    exact Nat.succ_le_succ ih

/-- A body stays as it is just when no backslash in it begins an escape. -/
theorem unescape_eq_self_iff (body : List Char) : unescape body = body ↔ Verbatim body := by
  induction body with
  | nil => exact iff_of_true unescape_nil verbatim_nil
  | cons c cs ih =>
    rw [verbatim_cons, ← ih]
    by_cases hc : c = '\\'
    · subst hc
      cases hread : readEscape cs with
      | none =>
        have hbroken := readEscape_eq_none_iff.mp hread
        rw [unescape_backslash hread, List.cons_inj_right]
        exact ⟨fun h => ⟨fun _ => hbroken, h⟩, And.right⟩
      | some escape =>
        -- with an escape in front the value is shorter than the body
        obtain ⟨out, rest⟩ := escape
        have hne : unescape ('\\' :: cs) ≠ '\\' :: cs := by
          intro heq
          have hlength := congrArg List.length heq
          have hescape := length_readEscape hread
          have hrest := length_unescape_le rest
          rw [unescape_escape hread, List.length_append, List.length_cons] at hlength
          omega
        refine iff_of_false hne ?_
        rintro ⟨hbroken, -⟩
        rw [readEscape_eq_none_iff.mpr (hbroken rfl)] at hread
        cases hread
    · rw [unescape_cons hc, List.cons_inj_right]
      exact ⟨fun h => ⟨fun heq => absurd heq hc, h⟩, And.right⟩

/-! ## Reading in one pass -/

/-- Take the digits in front, and put down the character that they name, or put back the backslash, the letter and the
    digits. The answer is what is put down, and what has not been looked at. -/
def passCode (letter : Char) (count : Nat) (cs : List Char) : List Char × List Char :=
  let digits := leadingDigits count cs
  let output := match hexChar? digits.length digits with
    | some d => if digits.length = count then [d] else '\\' :: letter :: digits
    | none => '\\' :: letter :: digits
  (output, cs.drop digits.length)

/-- Take what follows a backslash. -/
def passEscape : List Char → List Char × List Char
  | [] => (['\\'], [])
  | c :: cs =>
    match plainEscapes.lookup c, digitEscapes.lookup c with
    | some out, _ => (out, cs)
    | none, some count => passCode c count cs
    | none, none => (['\\', c], cs)

/-- What has not been looked at gets shorter, which is why the pass ends. -/
theorem length_passEscape (cs : List Char) : (passEscape cs).2.length ≤ cs.length := by
  fun_cases passEscape cs with
  | case1 => exact Nat.le_refl 0
  | case2 c cs out _ => exact Nat.le_succ cs.length
  | case3 c cs count _ _ =>
    show (cs.drop (leadingDigits count cs).length).length ≤ cs.length + 1
    rw [List.length_drop]
    omega
  | case4 c cs _ _ => exact Nat.le_succ cs.length

/-- Read a body from the first character to the last, without looking at any of them twice. -/
def onePass : List Char → List Char
  | [] => []
  | c :: cs =>
    if c = '\\' then
      have := length_passEscape cs
      (passEscape cs).1 ++ onePass (passEscape cs).2
    else c :: onePass cs
  termination_by cs => cs.length

/-- The digits are the front of the text. -/
theorem leadingDigits_append (count : Nat) (cs : List Char) :
    leadingDigits count cs ++ cs.drop (leadingDigits count cs).length = cs :=
  List.prefix_iff_eq_append.mp ((List.takeWhile_prefix isHexDigit).trans (List.take_prefix count cs))

theorem length_leadingDigits_le (count : Nat) (cs : List Char) : (leadingDigits count cs).length ≤ count :=
  Nat.le_trans (List.takeWhile_prefix isHexDigit).length_le (List.length_take_le count cs)

theorem ne_slash_of_mem_leadingDigits (count : Nat) (cs : List Char) : ∀ d ∈ leadingDigits count cs, d ≠ '\\' := by
  rintro d hd rfl
  have hdigit : isHexDigit '\\' = true := List.all_eq_true.mp List.all_takeWhile _ hd
  cases hdigit

/-- What is behind the digits makes no difference to what they name. -/
theorem hexChar?_leadingDigits (h : (leadingDigits count cs).length = count) :
    hexChar? count (leadingDigits count cs) = hexChar? count cs := by
  have happend := hexNumber?_append h 0 0 (cs.drop (leadingDigits count cs).length)
  rw [leadingDigits_append, Nat.add_zero] at happend
  have hnumber : hexNumber? count 0 cs = hexNumber? count 0 (leadingDigits count cs) :=
    happend.trans (Option.bind_fun_some _)
  rw [hexChar?, hexChar?, hnumber]

/-- Digits that name a character are gone through as far as they are counted. -/
theorem passCode_of_some {d : Char} (h : hexChar? count cs = some d) (letter : Char) :
    passCode letter count cs = ([d], cs.drop count) := by
  have hlength : (leadingDigits count cs).length = count := by
    refine Nat.le_antisymm (length_leadingDigits_le count cs) (Nat.le_of_not_lt fun hlt => ?_)
    rw [hexChar?_eq_none_iff.mpr (Or.inl hlt)] at h
    cases h
  simp only [passCode, hlength, hexChar?_leadingDigits hlength, h, if_true]

/-- Digits that name none are put back, as many of them as there are. -/
theorem passCode_of_none (h : hexChar? count cs = none) (letter : Char) : passCode letter count cs =
    ('\\' :: letter :: leadingDigits count cs, cs.drop (leadingDigits count cs).length) := by
  by_cases hlength : (leadingDigits count cs).length = count
  · simp only [passCode, hlength, hexChar?_leadingDigits hlength, h]
  · simp only [passCode, if_neg hlength]
    cases hexChar? (leadingDigits count cs).length (leadingDigits count cs) with
    | none => rfl
    | some d => rfl

/-- What is in front of the first backslash is kept. -/
theorem unescape_append_of_not_mem {xs : List Char} (h : ∀ x ∈ xs, x ≠ '\\') (ys : List Char) :
    unescape (xs ++ ys) = xs ++ unescape ys := by
  induction xs with
  | nil => rfl
  | cons x xs ih =>
    obtain ⟨hx, hxs⟩ := List.forall_mem_cons.mp h
    rw [List.cons_append, unescape_cons hx, ih hxs, List.cons_append]

theorem ne_slash_of_mem_codeEscapes : ∀ e ∈ codeEscapes, e.1 ≠ '\\' := by decide

/-- To put back digits is to read on behind the backslash: neither letter nor digits begin an escape. -/
theorem unescape_passCode {letter : Char} (hcode : (letter, count) ∈ codeEscapes) (cs : List Char) :
    unescape ('\\' :: letter :: cs) = (passCode letter count cs).1 ++ unescape (passCode letter count cs).2 := by
  have hread := readEscape_coded hcode cs
  cases hchar : hexChar? count cs with
  | some d =>
    rw [hchar, Option.map_some] at hread
    rw [passCode_of_some hchar, unescape_escape hread]
  | none =>
    rw [hchar, Option.map_none] at hread
    have hdigits := unescape_append_of_not_mem (ne_slash_of_mem_leadingDigits count cs)
    rw [passCode_of_none hchar, unescape_backslash hread, unescape_cons (ne_slash_of_mem_codeEscapes _ hcode),
      List.cons_append, List.cons_append, ← hdigits, leadingDigits_append]

/-- One step of the pass is one step of the reader, whatever stands behind the backslash. -/
theorem unescape_passEscape (cs : List Char) :
    unescape ('\\' :: cs) = (passEscape cs).1 ++ unescape (passEscape cs).2 := by
  cases cs with
  | nil => rw [unescape_backslash rfl]; rfl
  | cons c cs =>
    rcases letter_cases c with ⟨e, -, hplain⟩ | ⟨count, hcode⟩ | hc
    · have hread : readEscape (c :: cs) = some (e.2, cs) := by simp only [readEscape, hplain]
      rw [unescape_escape hread]
      simp only [passEscape, hplain]
    · obtain ⟨hplain, hdigits⟩ := lookup_codeEscapes _ hcode
      rw [unescape_passCode hcode]
      simp only [passEscape, hplain, hdigits]
    · have hslash : c ≠ '\\' := by
        rintro rfl
        exact hc (by decide)
      rw [unescape_backslash (readEscape_eq_none_iff.mpr (.other hc)), unescape_cons hslash]
      simp only [passEscape, lookup_eq_none_of_not_mem mem_escapeLetters_plain hc,
        lookup_eq_none_of_not_mem mem_escapeLetters_digits hc, List.cons_append, List.nil_append]

/-- The reader that goes through the body once comes to the same. -/
theorem onePass_eq (body : List Char) : onePass body = unescape body := by
  fun_induction onePass body with
  | case1 => exact unescape_nil.symm
  | case2 cs _ ih => rw [ih, unescape_passEscape]
  | case3 c cs hc ih => rw [ih, unescape_cons hc]

/-! ## Bodies with escapes of both kinds -/

/-- **What is no escape is kept.** A body stays as it is just when no backslash in it begins an escape. Such a body is
    kept behind any text in which each character is written as itself or by an escape, and the text is read as it is
    by itself; between three quotes all characters but the backslash may be written as themselves. A reader that takes
    the digits of an escape before it knows their number, and puts them back where they are no escape, does the
    same. -/
theorem unescape_keeps_broken :
    (∀ body : List Char, unescape body = body ↔ Verbatim body) ∧
    (∀ (style : QuoteStyle) (value p q : List Char), style.Spells value p → Verbatim q →
      unescape (p ++ q) = unescape p ++ q) ∧
    ∀ body : List Char, onePass body = unescape body := by
  refine ⟨unescape_eq_self_iff, ?_, onePass_eq⟩
  intro style value p q hp hq
  rw [unescape_spells_append hp, unescape_spells hp, (unescape_eq_self_iff q).mpr hq]

/-- A digit that is missing with a backslash right behind, a surrogate, a letter of no escape, a number beyond all
    characters, and a backslash at the end. -/
def brokenBody : List Char :=
  ['\\', 'x', '4', '\\', 'u', 'D', '8', '0', '0', '\\', 'q', '\\', 'U', '0', '0', '1', '1', '0', '0', '0', '0', '\\']

theorem verbatim_brokenBody : Verbatim brokenBody := by
  have hshort : Broken (brokenBody.drop 1) := @Broken.short 'x' 2 _ (by decide) (by decide)
  have hsurrogate : Broken (brokenBody.drop 4) :=
    @Broken.nameless 'u' 4 0xD800 _ (by decide) (by decide) (Or.inl (by decide))
  have hother : Broken (brokenBody.drop 10) := @Broken.other 'q' _ (by decide)
  have hbeyond : Broken (brokenBody.drop 12) :=
    @Broken.nameless 'U' 8 0x110000 _ (by decide) (by decide) (Or.inr (by decide))
  simp only [brokenBody, List.drop] at hshort hsurrogate hother hbeyond
  simp [brokenBody, verbatim_cons, verbatim_nil, hshort, hsurrogate, hother, hbeyond, Broken.last]

theorem unescape_keeps_broken_behind : tripleQuotes.Spells "é\"Ac\\".toList mixedBody ∧ Verbatim brokenBody ∧
    unescape (mixedBody ++ brokenBody) = unescape mixedBody ++ brokenBody ∧
    unescape brokenBody = brokenBody ∧ onePass brokenBody = brokenBody := by
  have hbroken := (unescape_keeps_broken.1 brokenBody).mpr verbatim_brokenBody
  refine ⟨spells_mixedBody, verbatim_brokenBody, ?_, hbroken, ?_⟩
  · exact unescape_keeps_broken.2.1 tripleQuotes _ mixedBody brokenBody spells_mixedBody verbatim_brokenBody
  · rw [unescape_keeps_broken.2.2, hbroken]

end TableSpec
