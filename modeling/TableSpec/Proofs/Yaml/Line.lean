import TableSpec.Proofs.Yaml.Document
import TableSpec.Proofs.Yaml.Literal
import TableSpec.Proofs.Yaml.Plain

/-!
# `Proofs.Yaml.Line` — values on the rest of a line, and keys

Whatever a scalar is written like, a reader has to take all of it and nothing after it, wherever it stands.
`ReadsLine` says so for what stands behind a mark or a key, up to the end of its last line; `ReadsKey` for what
stands before a colon. Neither may be taken for the beginning of something else, so both also say what the
front of the text is not.

Every text has such a form in its style (`readsLine_text`, `readsKey_text`), and so have the scalars that stand for
something else than their text (`readsLine_plain`) and the empty collections.

## Contents
- `ReadsLine`; `readsLine_quoted`, `readsLine_plainText`, `readsLine_literal`, `readsLine_text`.
- `readsLine_plain`, `readsLine_empty`: the other values that stand on one line.
- `ReadsKey`, `readsKey_text`.
-/

namespace TableSpec
namespace Yaml

/-! ## Reading up to the end of a line -/

/-- What is written for a value inside a collection at column `context`, up to the end of its last line, is read
    as that value in front of any content that is not further in, and it is not read as anything else. -/
structure ReadsLine (context : Nat) (written : List Char) (d : Yaml) : Prop where
  ne_nil : written ≠ []
  solid : Solid written
  noMark : ∀ {mark}, mark = '-' ∨ mark = '?' → ∀ k tail, markAhead mark (number k (written ++ tail)) = false
  noKey : ∀ k tail, simpleKey (number k (written ++ tail)) = none
  reads : ∀ {j}, j ≤ context → ∀ {content}, Solid content → ∀ k,
    inlineNode (context + 1) (number k (written ++ (spaces j ++ content))) = some (d, number j content)

/-- What is read on a line is solid, whatever follows it. -/
theorem ReadsLine.solid_append {context : Nat} {written : List Char} {d : Yaml} (h : ReadsLine context written d)
    (tail : List Char) : Solid (written ++ tail) := by
  have hsolid := h.solid
  obtain ⟨c, rest, rfl⟩ := List.exists_cons_of_ne_nil h.ne_nil
  exact solid_cons (hsolid c rfl)

/-- Another character is no mark. -/
theorem not_markAhead_of_ne {mark c : Char} (h : c ≠ mark) (k : Nat) (cs : List Char) :
    markAhead mark (number k (c :: cs)) = false := by
  rw [markAhead_number, beq_false_of_ne h, Bool.false_and]

/-! ## Scalars in quotes -/

/-- A scalar in quotes at the end of its line is no key. -/
theorem simpleKey_quoted_line {ts : List Spot} {d : Yaml} {k : Nat} {tail : List Char}
    (h : quotedScalar ts = some (d, number k ('\n' :: tail))) : simpleKey ts = none := by
  have hskip : skipSpaces (number k ('\n' :: tail)) = number k ('\n' :: tail) := skipSpaces_self (by decide) _ _
  have hmark : markAhead ':' (number k ('\n' :: tail)) = false := not_markAhead_of_ne (by decide) _ _
  unfold simpleKey
  rw [h]
  simp only [Option.bind_eq_bind]
  split
  · rfl
  · rw [Option.bind_some, hskip, hmark]
    rfl

/-- A quoted scalar is read on its line, whichever quotes it has. -/
theorem readsLine_quoted (context : Nat) {quote : Char} (hquote : quote = '\'' ∨ quote = '"') {body : List Char}
    {d : Yaml} (hread : ∀ k tail, tail.head? ≠ some '\'' →
      ∃ k', quotedScalar (number k (quote :: body ++ tail)) = some (d, number k' tail)) :
    ReadsLine context (quote :: body ++ ['\n']) d where
  ne_nil := List.cons_ne_nil _ _
  solid := solid_cons (by rcases hquote with rfl | rfl <;> decide)
  noMark {mark} hmark k tail := by
    refine not_markAhead_of_ne ?_ k _
    rcases hmark with rfl | rfl <;> rcases hquote with rfl | rfl <;> decide
  noKey k tail := by
    obtain ⟨k', hk'⟩ := hread k ('\n' :: tail) (by simp)
    rw [List.append_assoc]
    exact simpleKey_quoted_line hk'
  reads {j} _ {content} hcontent k := by
    obtain ⟨k', hk'⟩ := hread k ('\n' :: (spaces j ++ content)) (by simp)
    have hahead : ∀ mark, mark = '|' ∨ mark = '>' ∨ mark = '[' ∨ mark = '\x7b' →
        ahead mark (number k (quote :: body ++ '\n' :: (spaces j ++ content))) = false := by
      intro mark hmark
      show (quote == mark) = false
      rcases hquote with rfl | rfl <;> rcases hmark with rfl | rfl | rfl | rfl <;> rfl
    rw [List.append_assoc]
    show inlineNode (context + 1) (number k (quote :: body ++ '\n' :: (spaces j ++ content))) = _
    simp only [inlineNode, hahead, hk', Bool.or_false, true_or, or_true]
    show (restOfLine? _ >>= _) = _
    rw [restOfLine?_break]
    exact congrArg (fun rest => some (d, rest)) (nextLine_number hcontent _ j)

/-! ## Scalars without quotes -/

/-- A scalar without quotes is read on its line, and stands for what its spelling says. -/
theorem readsLine_plainText (context : Nat) {cs : List Char} (h : PlainText cs) :
    ReadsLine context (cs ++ ['\n']) (ofPlain (String.ofList cs)) where
  ne_nil := by simp
  solid := by
    obtain ⟨c, rest, rfl, hsolid, -⟩ := h.exists_cons
    exact solid_cons hsolid
  noMark {mark} hmark k tail := by
    rw [List.append_assoc]
    refine h.not_markAhead ?_ k
    rcases hmark with rfl | rfl
    · exact Or.inl rfl
    · exact Or.inr (Or.inl rfl)
  noKey k tail := by
    rw [List.append_assoc]
    exact simpleKey_plain_line h _ k
  reads {j} hj {content} hcontent k := by
    rw [List.append_assoc]
    exact inlineNode_plain h (Nat.lt_succ_of_le hj) hcontent k

/-! ## Literal texts -/

/-- A block is read from its header on, up to the first line that is not further in. -/
theorem readsLine_literal (context : Nat) {cs : List Char} (hne : cs ≠ []) :
    ReadsLine context (literal (context + 2) cs) (text (String.ofList cs)) where
  ne_nil := List.cons_ne_nil _ _
  solid := solid_cons (by decide)
  noMark {mark} hmark k tail := by
    refine not_markAhead_of_ne ?_ k _
    rcases hmark with rfl | rfl <;> decide
  noKey k tail := rfl
  reads {j} hj {content} hcontent k := by
    have hbar : ahead '|' (number k (literal (context + 2) cs ++ (spaces j ++ content))) = true := rfl
    rw [inlineNode, hbar]
    exact blockScalar_literal hj hne hcontent k

/-! ## Texts in their styles -/

/-- The test of the printer says that a text can be written between single quotes. -/
theorem singleText_of_allowed {cs : List Char} (hnewline : '\n' ∉ cs) (h : singleAllowed cs = true) :
    SingleText cs := by
  simp only [singleAllowed, needsEscapes, Bool.and_eq_true, Bool.not_eq_true', Bool.or_eq_false_iff,
    List.any_eq_false] at h
  obtain ⟨⟨hprintable, hbreak⟩, hspace⟩ := h
  exact ⟨fun c hc => by simpa using hprintable c hc, hnewline, hbreak, hspace⟩

/-- A text that stands for itself without quotes is not empty. -/
theorem toList_ne_nil_of_isText {s : String} (h : isText s = true) : s.toList ≠ [] := by
  intro heq
  have hs : s = "" := String.toList_eq_nil_iff.mp heq
  subst hs
  exact absurd h (by decide)

/-- **What each style says of a text.** Between double quotes anything can stand. -/
theorem style_cases (s : String) :
    (style s = .plain ∧ isText s = true ∧ PlainText s.toList) ∨
    (style s = .singleQuoted ∧ SingleText s.toList) ∨
    style s = .doubleQuoted ∨
    (style s = .literal ∧ '\n' ∈ s.toList ∧ ∀ c ∈ s.toList, isPrintable c = true) := by
  simp only [style]
  split
  · rename_i hnewline
    split
    · rename_i hliteral
      simp only [literalAllowed, needsEscapes, Bool.and_eq_true, Bool.not_eq_true', Bool.or_eq_false_iff,
        List.any_eq_false] at hliteral
      refine Or.inr (Or.inr (Or.inr ⟨rfl, by simpa using hnewline, fun c hc => ?_⟩))
      simpa using hliteral.1.1 c hc
    · exact Or.inr (Or.inr (Or.inl rfl))
  · rename_i hnewline
    split
    · rename_i hplain
      simp only [Bool.and_eq_true] at hplain
      obtain ⟨⟨htext, -⟩, hallowed⟩ := hplain
      exact Or.inl ⟨rfl, htext, plainText_of_allowed (toList_ne_nil_of_isText htext) hallowed⟩
    · split
      · rename_i hsingle
        exact Or.inr (Or.inl ⟨rfl, singleText_of_allowed (by simpa using hnewline) hsingle⟩)
      · exact Or.inr (Or.inr (Or.inl rfl))

/-- **A text is read in every style**, whatever its characters are. -/
theorem readsLine_text (context : Nat) (s : String) : ReadsLine context (textLine (context + 2) s) (text s) := by
  rcases style_cases s with ⟨hstyle, htext, hplain⟩ | ⟨hstyle, hsingle⟩ | hstyle | ⟨hstyle, hnewline, -⟩
  · have hread := readsLine_plainText context hplain
    rw [String.ofList_toList, ofPlain, if_pos htext] at hread
    rwa [textLine, hstyle]
  · rw [textLine, hstyle]
    refine readsLine_quoted context (Or.inl rfl) fun k tail htail => ?_
    -- the lines of a text between single quotes are moved in, so the indentation is not zero
    have hread := @quotedScalar_single (context + 2) _ _ hsingle (Or.inl (by omega)) htail k
    rwa [String.ofList_toList] at hread
  · rw [textLine, hstyle]
    refine readsLine_quoted context (Or.inr rfl) fun k tail _ => ?_
    have hread := quotedScalar_double s.toList tail k
    rwa [String.ofList_toList] at hread
  · have hread := readsLine_literal context (List.ne_nil_of_mem hnewline)
    rw [String.ofList_toList] at hread
    rwa [textLine, hstyle]

/-! ## Scalars that stand for something else than their text -/

/-- A scalar without quotes ends within a line only at a colon or a comment. -/
theorem endsWithin_of_not_mem {cs : List Char} (hcolon : ':' ∉ cs) (hhash : '#' ∉ cs) (afterGap : Bool) :
    endsWithin afterGap cs = false := by
  induction cs generalizing afterGap with
  | nil => rfl
  | cons c rest ih =>
    simp only [List.mem_cons, not_or] at hcolon hhash
    simp [endsWithin, ih hcolon.2 hhash.2, Ne.symm hcolon.1, Ne.symm hhash.1]

theorem isPrintable_digit {c : Char} (h : c.isDigit = true) : isPrintable c = true ∧ isBreak c = false := by
  obtain ⟨hlow, hhigh⟩ := Char.isDigit_iff_toNat.mp h
  have hlow : 48 ≤ c.toNat := hlow
  have hhigh : c.toNat ≤ 57 := hhigh
  constructor
  · have hspace : ' ' ≤ c := by
      show 32 ≤ c.toNat
      omega
    have htilde : c.toNat ≤ 0x7E := by omega
    simp [isPrintable, hspace, htilde]
  · have hne : ∀ d : Char, d.toNat < 48 → c ≠ d := by
      rintro d hd rfl
      omega
    have hn : c ≠ '\n' := hne '\n' (by decide)
    have hr : c ≠ '\r' := hne '\r' (by decide)
    simp only [isBreak, Bool.or_eq_false_iff, beq_eq_false_iff_ne]
    refine ⟨⟨⟨⟨hn, hr⟩, ?_⟩, ?_⟩, ?_⟩ <;> omega

/-- Digits can be written without quotes. -/
theorem plainText_digits {cs : List Char} (hne : cs ≠ []) (h : ∀ c ∈ cs, c.isDigit = true) : PlainText cs := by
  have hnot : ∀ {d : Char}, d.isDigit = false → d ∉ cs := by
    intro d hd hmem
    rw [h d hmem] at hd
    cases hd
  refine ⟨hne, fun c hc => (isPrintable_digit (h c hc)).1, fun c hc => (isPrintable_digit (h c hc)).2, ?_, ?_, ?_⟩
  · exact fun hhead => hnot (d := ' ') (by decide) (List.mem_of_head? hhead)
  · exact fun hlast => hnot (d := ' ') (by decide) (List.mem_of_getLast? hlast)
  · obtain ⟨c, rest, rfl⟩ := List.exists_cons_of_ne_nil hne
    have hc := h c List.mem_cons_self
    have hother : ∀ d : Char, d.isDigit = false → c ≠ d :=
      fun d hd heq => hnot hd (heq ▸ List.mem_cons_self)
    have hrest := @endsWithin_of_not_mem rest
      (fun hmem => hnot (d := ':') (by decide) (List.mem_cons_of_mem _ hmem))
      (fun hmem => hnot (d := '#') (by decide) (List.mem_cons_of_mem _ hmem)) (atGap [c])
    have hindicator : c ∉ indicators := by
      intro hmem
      -- no digit is an indicator, as going through the indicators shows
      have hall : indicators.all (fun d => !d.isDigit) = true := by decide
      have hdigit := List.all_eq_true.mp hall c hmem
      rw [hc] at hdigit
      cases hdigit
    simp [isIndicated, List.isPrefixOf, hrest, hindicator, (hother '-' (by decide)).symm, (hother '.' (by decide)).symm,
      hother '?' (by decide), hother ':' (by decide), hother '-' (by decide)]

/-- The scalars of a catalog can stand without quotes, and are no texts then. -/
theorem plainText_of_canonical {s : String} (h : Canonical (plain s)) : PlainText s.toList ∧ isText s = false := by
  cases h with
  | flag b => cases b with
    | true => exact ⟨plainText_of_allowed (by decide) (by decide), by decide⟩
    | false => exact ⟨plainText_of_allowed (by decide) (by decide), by decide⟩
  | null => exact ⟨plainText_of_allowed (by decide) (by decide), by decide⟩
  | count hn =>
    refine ⟨?_, ?_⟩
    · rw [String.toList_ofList]
      exact plainText_digits (Digits.ofNat_ne_nil _) (Digits.isDigit_of_mem_ofNat _)
    · simp [isText, isInteger_ofNat hn]

/-- What stands for something else than its text is written as it is spelled. -/
theorem readsLine_plain (context : Nat) {s : String} (h : Canonical (plain s)) :
    ReadsLine context (s.toList ++ ['\n']) (plain s) := by
  obtain ⟨hplain, htext⟩ := plainText_of_canonical h
  have hread := readsLine_plainText context hplain
  rwa [String.ofList_toList, ofPlain, htext] at hread

/-! ## Empty collections -/

/-- What is solid separates nothing. -/
theorem skipSeparators_solid {c : Char} (hc : isSolid c = true) (k : Nat) (cs : List Char) :
    skipSeparators (number k (c :: cs)) = number k (c :: cs) := by
  obtain ⟨hspace, htab, hhash, hbreak⟩ := isSolid_iff.mp hc
  have hskip : skipSpaces (number k (c :: cs)) = number k (c :: cs) := skipSpaces_self ⟨hspace, htab⟩ k cs
  have hrest : restOfLine? (number k (c :: cs)) = none := by
    rw [restOfLine?, hskip, if_neg (Nat.lt_irrefl _), number_line hbreak]
    simp [hbreak]
  have hflow : ∀ n, skipFlow (n + 1) (number k (c :: cs)) = number k (c :: cs) := by
    intro n
    rw [skipFlow, hrest]
    exact hskip
  have hcomment : ahead '#' (number k (c :: cs)) = false := by
    simpa [number] using hhash
  rw [skipSeparators, hflow, hcomment]
  rfl

/-- The brackets of an empty collection. -/
def EmptyBrackets (opening closing : Char) (d : Yaml) : Prop :=
  opening = '[' ∧ closing = ']' ∧ d = sequence [] ∨ opening = '\x7b' ∧ closing = '\x7d' ∧ d = mapping []

/-- A closing bracket in front ends the items. The equations of `flowItems` are long, so it is not rewritten
    with them. -/
theorem flowItems_close (n : Nat) {ts rest : List Spot} {k : Nat} (h : skipSeparators ts = ⟨']', k⟩ :: rest) :
    flowItems (n + 1) ts = some (sequence [], rest) := by
  show (if ahead ']' (skipSeparators ts) then some (sequence [], (skipSeparators ts).tail) else _) = _
  rw [h]
  rfl

theorem flowEntries_close (n : Nat) {ts rest : List Spot} {k : Nat}
    (h : skipSeparators ts = ⟨'\x7d', k⟩ :: rest) : flowEntries (n + 1) ts = some (mapping [], rest) := by
  show (if ahead '\x7d' (skipSeparators ts) then some (mapping [], (skipSeparators ts).tail) else _) = _
  rw [h]
  rfl

/-- Empty brackets are read as the empty collection. -/
theorem flowNode_empty {opening closing : Char} {d : Yaml} (h : EmptyBrackets opening closing d) (n k : Nat)
    (tail : List Char) :
    flowNode (n + 2) (number k (opening :: closing :: tail)) = some (d, number (k + 2) tail) := by
  rcases h with ⟨rfl, rfl, rfl⟩ | ⟨rfl, rfl, rfl⟩
  · have hskip := skipSeparators_solid (c := ']') (by decide) (k + 1) tail
    rw [number_line (by decide) (k + 1)] at hskip
    show flowItems (n + 1) (number (k + 1) (']' :: tail)) = _
    rw [number_line (by decide), flowItems_close n hskip]
  · have hskip := skipSeparators_solid (c := '\x7d') (by decide) (k + 1) tail
    rw [number_line (by decide) (k + 1)] at hskip
    show flowEntries (n + 1) (number (k + 1) ('\x7d' :: tail)) = _
    rw [number_line (by decide), flowEntries_close n hskip]

/-- An empty collection is read from its brackets. -/
theorem readsLine_empty (context : Nat) {opening closing : Char} {d : Yaml} (h : EmptyBrackets opening closing d) :
    ReadsLine context [opening, closing, '\n'] d where
  ne_nil := List.cons_ne_nil _ _
  solid := solid_cons (by rcases h with ⟨rfl, -⟩ | ⟨rfl, -⟩ <;> decide)
  noMark {mark} hmark k tail := by
    refine not_markAhead_of_ne ?_ k _
    rcases hmark with rfl | rfl <;> rcases h with ⟨rfl, -⟩ | ⟨rfl, -⟩ <;> decide
  noKey k tail := by rcases h with ⟨rfl, -⟩ | ⟨rfl, -⟩ <;> rfl
  reads {j} _ {content} hcontent k := by
    -- the reader's bound is the length of what is left, and two are enough for the brackets
    let written := opening :: closing :: '\n' :: (spaces j ++ content)
    have hflow := flowNode_empty h (content.length + j + 2) k ('\n' :: (spaces j ++ content))
    have hlength : (number k written).length + 1 = content.length + j + 2 + 2 := by
      simp only [written, length_number, List.length_cons, List.length_append, spaces, List.length_replicate]
      omega
    have hscalar : (ahead '|' (number k written) || ahead '>' (number k written)) = false := by
      show (opening == '|' || opening == '>') = false
      rcases h with ⟨rfl, -⟩ | ⟨rfl, -⟩ <;> rfl
    have hbracket : (ahead '[' (number k written) || ahead '\x7b' (number k written)) = true := by
      show (opening == '[' || opening == '\x7b') = true
      rcases h with ⟨rfl, -⟩ | ⟨rfl, -⟩ <;> rfl
    show inlineNode (context + 1) (number k written) = _
    simp only [inlineNode, hscalar, hbracket, hlength]
    show (flowNode _ (number k written) >>= _) = _
    rw [hflow, Option.bind_eq_bind, Option.bind_some]
    show (restOfLine? _ >>= _) = _
    rw [restOfLine?_break]
    exact congrArg (fun rest => some (d, rest)) (nextLine_number hcontent _ j)

/-! ## Keys -/

/-- What is written for a key is read as that text up to after the colon, and it is not read as anything else. -/
structure ReadsKey (written : List Char) (s : String) : Prop where
  ne_nil : written ≠ []
  solid : Solid written
  noMark : ∀ {mark}, mark = '-' ∨ mark = '?' → ∀ k tail, markAhead mark (number k (written ++ tail)) = false
  noBoundary : ∀ k tail, boundaryAhead (number k (written ++ ':' :: tail)) = false
  reads : ∀ {tail}, atGap tail = true → ∀ k,
    ∃ k', simpleKey (number k (written ++ ':' :: tail)) = some (text s, number k' tail)

/-- No document ends in front of a key. -/
theorem PlainText.boundaryAhead {cs : List Char} (h : PlainText cs) (k : Nat) (tail : List Char) :
    boundaryAhead (number k (cs ++ ':' :: tail)) = false := by
  have hfront : ∀ c : Char, c = '-' ∨ c = '.' → (cs ++ ':' :: tail).take 3 ≠ [c, c, c] := by
    intro c hc heq
    have hcolon : ':' ≠ c := by rcases hc with rfl | rfl <;> decide
    -- a key shorter than the mark has its colon among the first three characters
    rcases cs with _ | ⟨a, _ | ⟨b, _ | ⟨d, rest⟩⟩⟩
    · exact hcolon (List.cons.inj heq).1
    · exact hcolon (List.cons.inj (List.cons.inj heq).2).1
    · exact hcolon (List.cons.inj (List.cons.inj (List.cons.inj heq).2).2).1
    · obtain ⟨rfl, rfl, rfl⟩ : a = c ∧ b = c ∧ d = c := by simpa using heq
      have hindicated := h.indicated
      rcases hc with rfl | rfl <;> simp [isIndicated, List.isPrefixOf] at hindicated
  have hchars : chars ((number k (cs ++ ':' :: tail)).take 3) = (cs ++ ':' :: tail).take 3 := by
    rw [chars, List.map_take, ← chars, chars_number]
  have hdash := beq_false_of_ne (hfront '-' (Or.inl rfl))
  have hpoint := beq_false_of_ne (hfront '.' (Or.inr rfl))
  simp only [Yaml.boundaryAhead, hchars, hdash, hpoint, Bool.or_false, Bool.false_and]

/-- A quoted key is read in front of its colon. -/
theorem readsKey_quoted {quote : Char} (hquote : quote = '\'' ∨ quote = '"') {body : List Char} {s : String}
    (hline : ∀ c ∈ body, isBreak c = false)
    (hread : ∀ k tail, tail.head? ≠ some '\'' →
      ∃ k', quotedScalar (number k (quote :: body ++ tail)) = some (text s, number k' tail)) :
    ReadsKey (quote :: body) s where
  ne_nil := List.cons_ne_nil _ _
  solid := solid_cons (by rcases hquote with rfl | rfl <;> decide)
  noMark {mark} hmark k tail := by
    refine not_markAhead_of_ne ?_ k _
    rcases hmark with rfl | rfl <;> rcases hquote with rfl | rfl <;> decide
  noBoundary k tail := by rcases hquote with rfl | rfl <;> exact boundaryAhead_of_ne (by decide) (by decide) k _
  reads {tail} htail k := by
    obtain ⟨k', hk'⟩ := hread k (':' :: tail) (by simp)
    have hfirst : isBreak quote = false := by rcases hquote with rfl | rfl <;> decide
    -- what the reader has passed over is what was written, which must be on one line
    have htake : (number k (quote :: body ++ ':' :: tail)).take
        ((number k (quote :: body ++ ':' :: tail)).length - (number k' (':' :: tail)).length) =
          number k (quote :: body) := by
      rw [length_number, length_number, List.length_append, Nat.add_sub_cancel, take_number]
    have hbreak : (number k (quote :: body)).any (fun t => isBreak t.char) = false := by
      have hany : (chars (number k (quote :: body))).any isBreak = false := by
        rw [chars_number]
        simpa [hfirst] using hline
      rwa [chars, List.any_map] at hany
    have hskip : skipSpaces (number k' (':' :: tail)) = number k' (':' :: tail) := skipSpaces_self (by decide) _ _
    have hmark : markAhead ':' (number k' (':' :: tail)) = true := by
      rw [markAhead_number, htail]
      rfl
    refine ⟨k' + 1, ?_⟩
    simp only [simpleKey, hk', htake, hbreak, Option.bind_eq_bind]
    rw [if_neg (by decide), Option.bind_some, hskip, if_pos hmark]
    rfl

/-- A key without quotes is read in front of its colon when it is a text. -/
theorem readsKey_plainText {cs : List Char} (h : PlainText cs) (htext : isText (String.ofList cs) = true) :
    ReadsKey cs (String.ofList cs) where
  ne_nil := h.ne_nil
  solid := by
    obtain ⟨c, rest, rfl, hsolid, -⟩ := h.exists_cons
    exact solid_cons hsolid
  noMark {mark} hmark k tail := by
    refine h.not_markAhead ?_ k
    rcases hmark with rfl | rfl
    · exact Or.inl rfl
    · exact Or.inr (Or.inl rfl)
  noBoundary := h.boundaryAhead
  reads {tail} htail k := by
    refine ⟨k + cs.length + 1, ?_⟩
    rw [simpleKey_plain h htail, ofPlain, if_pos htext]

/-- A key between single quotes stands on one line. -/
theorem readsKey_singleQuoted {cs : List Char} (h : SingleText cs) (hline : ∀ c ∈ cs, isBreak c = false) :
    ReadsKey (singleQuoted 0 cs) (String.ofList cs) := by
  refine readsKey_quoted (Or.inl rfl) ?_ fun k tail htail => quotedScalar_single h (Or.inr hline) htail k
  intro c hc
  rcases List.mem_append.mp hc with hc | hc
  · rcases mem_singleQuotedBody hc with hc | rfl | rfl
    · exact hline c hc
    · decide
    · decide
  · rw [List.mem_singleton.mp hc]
    decide

/-- A key between double quotes does so always: line ends have escapes. -/
theorem readsKey_doubleQuoted (cs : List Char) : ReadsKey (doubleQuoted cs) (String.ofList cs) := by
  refine readsKey_quoted (Or.inr rfl) ?_ fun k tail _ => quotedScalar_double cs tail k
  intro c hc
  rcases List.mem_append.mp hc with hc | hc
  · obtain ⟨d, -, hc⟩ := List.mem_flatMap.mp hc
    exact (isLineChar_iff.mp (isLineChar_escapeChar d c hc)).2
  · rw [List.mem_singleton.mp hc]
    decide

/-- **A key that fits before its colon is read.** -/
theorem readsKey_text {s : String} {written : List Char} (h : simpleKey? (text s) = some written) :
    ReadsKey written s := by
  rw [simpleKey?] at h
  split at h
  · cases h
  rename_i hfits
  have hline : ∀ c ∈ s.toList, isBreak c = false := by
    intro c hc
    simp only [Bool.or_eq_true, not_or, Bool.not_eq_true, List.any_eq_false] at hfits
    simpa using hfits.1 c hc
  -- a text of several lines is no simple key, and in the literal style it would have been one
  have hdouble := readsKey_doubleQuoted s.toList
  rw [String.ofList_toList] at hdouble
  rcases style_cases s with ⟨hstyle, htext, hplain⟩ | ⟨hstyle, hsingle⟩ | hstyle | ⟨hstyle, -⟩
  · rw [hstyle] at h
    obtain rfl : s.toList = written := Option.some.inj h
    have hkey := readsKey_plainText hplain (by rwa [String.ofList_toList])
    rwa [String.ofList_toList] at hkey
  · rw [hstyle] at h
    obtain rfl : singleQuoted 0 s.toList = written := Option.some.inj h
    have hkey := readsKey_singleQuoted hsingle hline
    rwa [String.ofList_toList] at hkey
  · rw [hstyle] at h
    exact Option.some.inj h ▸ hdouble
  · rw [hstyle] at h
    exact Option.some.inj h ▸ hdouble

end Yaml
end TableSpec
