import TableSpec.Proofs.Yaml.Spots

/-!
# `Proofs.Yaml.Plain` — scalars without quotes

A text is written without quotes when nothing in it would end it or be taken for something else
(`plainAllowed`). It is then read up to the end of its line, or up to the colon after it when it is a key.

## Contents
- `PlainText`: what `plainAllowed` says of the characters.
- `plainLine_number`, `PlainText.plainAhead`, `plainLines_number`: the parts of the reader.
- `inlineNode_plain`, `simpleKey_plain`, `simpleKey_plain_line`: values, keys, and that values are no keys.
-/

namespace TableSpec
namespace Yaml

/-! ## What can stand without quotes -/

/-- A text that can be written without quotes. -/
structure PlainText (cs : List Char) : Prop where
  ne_nil : cs ≠ []
  printable : ∀ c ∈ cs, isPrintable c = true
  line : ∀ c ∈ cs, isBreak c = false
  head : cs.head? ≠ some ' '
  last : cs.getLast? ≠ some ' '
  indicated : isIndicated cs = false

theorem plainText_of_allowed {cs : List Char} (hne : cs ≠ []) (h : plainAllowed cs = true) : PlainText cs := by
  simp only [plainAllowed, needsEscapes, hasLooseEnds, Bool.and_eq_true, Bool.not_eq_true', Bool.or_eq_false_iff,
    List.any_eq_false] at h
  obtain ⟨⟨⟨⟨hprintable, -⟩, hline⟩, hhead, hlast⟩, hindicated⟩ := h
  refine ⟨hne, ?_, ?_, ?_, ?_, hindicated⟩
  · exact fun c hc => by simpa using hprintable c hc
  · exact fun c hc => by simpa using hline c hc
  · intro heq
    simp [heq] at hhead
  · intro heq
    simp [heq] at hlast

theorem PlainText.ne_tab {cs : List Char} (h : PlainText cs) : ∀ c ∈ cs, c ≠ '\t' := by
  rintro c hc rfl
  exact absurd (h.printable _ hc) (by decide)

theorem PlainText.endsWithin {cs : List Char} (h : PlainText cs) : endsWithin false cs = false := by
  have hindicated := h.indicated
  cases cs with
  | nil => rfl
  | cons c rest =>
    simp only [isIndicated, Bool.or_eq_false_iff] at hindicated
    obtain ⟨⟨-, hmark⟩, hrest⟩ := hindicated
    rw [Yaml.endsWithin, hrest]
    simp only [Bool.and_false, Bool.or_false]
    by_cases hc : c = ':'
    · simpa [hc] using hmark
    · simp [hc]

/-! ## The line of a scalar -/

/-- What ends a scalar without quotes: the end of the line, or a colon before a gap. -/
def EndsPlain (cs : List Char) : Prop :=
  ∃ c rest, cs = c :: rest ∧ (isBreak c = true ∨ c = ':' ∧ atGap rest = true)

/-- After blanks there is no comment. -/
theorem ahead_skipSpaces {cs tail : List Char} (hends : endsWithin true cs = false)
    (hlast : cs.getLast? ≠ some ' ') (htab : ∀ c ∈ cs, c ≠ '\t') (hne : cs ≠ []) (k : Nat) :
    ahead '#' (skipSpaces (number k (cs ++ tail))) = false := by
  induction cs generalizing k with
  | nil => exact absurd rfl hne
  | cons c rest ih =>
    simp only [Yaml.endsWithin, Bool.or_eq_false_iff] at hends
    obtain ⟨⟨-, hcomment⟩, hrest⟩ := hends
    -- a space is passed over, and the text goes on after it
    by_cases hc : c = ' '
    · subst hc
      have hrestNe : rest ≠ [] := by
        rintro rfl
        exact hlast rfl
      have hrestLast : rest.getLast? ≠ some ' ' := by
        rwa [List.getLast?_cons_of_ne_nil hrestNe] at hlast
      have := ih hrest hrestLast (fun d hd => htab d (List.mem_cons_of_mem _ hd)) hrestNe (k + 1)
      simpa [skipSpaces, number, isBreak_space] using this
    · have htabc : c ≠ '\t' := htab c List.mem_cons_self
      have hskip : skipSpaces (number k (c :: rest ++ tail)) = number k (c :: rest ++ tail) := by
        simp [skipSpaces, number, hc, htabc]
      rw [hskip]
      simpa [number] using hcomment

/-- **The line of a scalar** is read up to what ends it. -/
theorem plainLine_number {cs tail : List Char} (htail : EndsPlain tail) {afterGap : Bool}
    (hends : endsWithin afterGap cs = false) (hline : ∀ c ∈ cs, isBreak c = false) (htab : ∀ c ∈ cs, c ≠ '\t')
    (hlast : cs.getLast? ≠ some ' ') (k : Nat) :
    plainLine false (number k (cs ++ tail)) = (cs, number (k + cs.length) tail) := by
  induction cs generalizing k afterGap with
  | nil =>
    obtain ⟨c, rest, rfl, hc⟩ := htail
    have hmark := markAhead_number ':' k c rest
    rw [number] at hmark
    rcases hc with hc | ⟨rfl, hgap⟩
    · simp [number, plainLine, hc]
    · simp [number, plainLine, hmark, hgap]
  | cons c rest ih =>
    have hc : isBreak c = false := hline c List.mem_cons_self
    have htabc : c ≠ '\t' := htab c List.mem_cons_self
    simp only [Yaml.endsWithin, Bool.or_eq_false_iff] at hends
    obtain ⟨⟨hcolon, -⟩, hrest⟩ := hends
    have hrestLast : rest.getLast? ≠ some ' ' := by
      cases rest with
      | nil => simp
      | cons d ds => rwa [List.getLast?_cons_cons] at hlast
    have hread := ih hrest (fun d hd => hline d (List.mem_cons_of_mem _ hd))
      (fun d hd => htab d (List.mem_cons_of_mem _ hd)) hrestLast (k + 1)
    have hmark : markAhead ':' (number k (c :: (rest ++ tail))) = false := by
      rw [markAhead_number]
      by_cases hcc : c = ':'
      · subst hcc
        cases rest with
        | nil => exact absurd hcolon (by decide)
        | cons d ds => simpa [atGap] using hcolon
      · simp [hcc]
    have hnumber : number k (c :: (rest ++ tail)) = ⟨c, k⟩ :: number (k + 1) (rest ++ tail) := by
      simp [number, hc]
    rw [hnumber] at hmark
    have hlength : k + 1 + rest.length = k + (c :: rest).length := by
      rw [List.length_cons]
      omega
    rw [List.cons_append, hnumber, plainLine, hread, hlength]
    -- a space may be the last before a comment: the text goes on, and not with one
    by_cases hspace : c = ' '
    · subst hspace
      have hrestNe : rest ≠ [] := by
        rintro rfl
        exact hlast rfl
      have hcomment := @ahead_skipSpaces rest tail hrest hrestLast
        (fun d hd => htab d (List.mem_cons_of_mem _ hd)) hrestNe (k + 1)
      simp [hmark, isBreak_space, hcomment, hrestNe]
    · simp [hmark, hc, hspace, htabc]

theorem PlainText.plainLine {cs tail : List Char} (h : PlainText cs) (htail : EndsPlain tail) (k : Nat) :
    plainLine false (number k (cs ++ tail)) = (cs, number (k + cs.length) tail) :=
  plainLine_number htail h.endsWithin h.line h.ne_tab h.last k

theorem endsPlain_break (cs : List Char) : EndsPlain ('\n' :: cs) := ⟨'\n', cs, rfl, Or.inl rfl⟩

theorem endsPlain_colon {cs : List Char} (h : atGap cs = true) : EndsPlain (':' :: cs) :=
  ⟨':', cs, rfl, Or.inr ⟨rfl, h⟩⟩

/-! ## What begins a scalar -/

/-- What a scalar without quotes begins with. -/
theorem PlainText.exists_cons {cs : List Char} (h : PlainText cs) : ∃ c rest, cs = c :: rest ∧
    isSolid c = true ∧ indicators.contains c = false ∧ (c = '-' ∨ c = '?' ∨ c = ':' → atGap rest = false) := by
  have hindicated := h.indicated
  obtain ⟨c, rest, rfl⟩ := List.exists_cons_of_ne_nil h.ne_nil
  simp only [isIndicated, Bool.or_eq_false_iff] at hindicated
  obtain ⟨⟨⟨-, hcontains⟩, hmark⟩, -⟩ := hindicated
  refine ⟨c, rest, rfl, isSolid_iff.mpr ⟨?_, h.ne_tab c List.mem_cons_self, ?_, h.line c List.mem_cons_self⟩,
    hcontains, fun hc => ?_⟩
  · exact fun heq => h.head (heq ▸ rfl)
  · rintro rfl
    exact absurd hcontains (by decide)
  · rcases hc with rfl | rfl | rfl
    all_goals simpa using hmark

/-- What follows a text is no gap where the text goes on. -/
theorem atGap_append {cs : List Char} (h : atGap cs = false) (tail : List Char) : atGap (cs ++ tail) = false := by
  cases cs with
  | nil => exact absurd h (by decide)
  | cons c rest => exact h

theorem PlainText.plainAhead {cs : List Char} (h : PlainText cs) (tail : List Char) (k : Nat) :
    plainAhead false (number k (cs ++ tail)) = true := by
  obtain ⟨c, rest, rfl, hsolid, hcontains, hmark⟩ := h.exists_cons
  obtain ⟨hspace, htab, -, hbreak⟩ := isSolid_iff.mp hsolid
  rw [List.cons_append, number, Yaml.plainAhead]
  by_cases hdash : c = '-'
  · simp [hdash, atGap_append (hmark (Or.inl hdash)) tail]
  · by_cases hother : c = '?' ∨ c = ':'
    · have hgap := atGap_append (hmark (Or.inr hother)) tail
      rcases hother with rfl | rfl
      · simp [hgap]
      · simp [hgap]
    · obtain ⟨hquestion, hcolon⟩ := not_or.mp hother
      have hmem : c ∉ indicators := by simpa using hcontains
      have hgap : atGap (c :: (rest ++ tail)) = false := by simp [atGap, hspace, htab, hbreak]
      have := gapAhead_number k (c :: (rest ++ tail))
      rw [number, hgap] at this
      simp [hdash, hquestion, hcolon, hmem, this]

/-- A scalar without quotes begins with none of the marks that begin something else. -/
theorem PlainText.not_ahead {cs : List Char} (h : PlainText cs) (mark : Char) (hmark : mark ∈ indicators)
    (tail : List Char) (k : Nat) : ahead mark (number k (cs ++ tail)) = false := by
  obtain ⟨c, rest, rfl, -, hcontains, -⟩ := h.exists_cons
  have hne : c ≠ mark := by
    rintro rfl
    have : c ∉ indicators := by simpa using hcontains
    exact this hmark
  simpa [number] using hne

/-- A scalar without quotes begins with no mark of an item or an entry. -/
theorem PlainText.not_markAhead {cs : List Char} (h : PlainText cs) {mark : Char}
    (hmark : mark = '-' ∨ mark = '?' ∨ mark = ':') {tail : List Char} (k : Nat) :
    markAhead mark (number k (cs ++ tail)) = false := by
  obtain ⟨c, rest, rfl, -, -, hgap⟩ := h.exists_cons
  rw [List.cons_append, markAhead_number]
  by_cases hc : c = mark
  · rw [atGap_append (hgap (hc ▸ hmark)) tail, Bool.and_false]
  · simp [hc]

theorem PlainText.quotedScalar {cs : List Char} (h : PlainText cs) (tail : List Char) (k : Nat) :
    quotedScalar (number k (cs ++ tail)) = none := by
  have hsingle := h.not_ahead '\'' (by decide) tail k
  have hdouble := h.not_ahead '"' (by decide) tail k
  obtain ⟨c, rest, rfl, -⟩ := h.exists_cons
  rw [List.cons_append, number, ahead_cons] at hsingle hdouble
  rw [List.cons_append, number, Yaml.quotedScalar]
  simp only [hsingle, hdouble]
  rfl

/-! ## Scalars -/

/-- A line further out does not go on with a scalar. -/
theorem plainLines_number {low j : Nat} (hj : j < low) {content : List Char} (hcontent : Solid content)
    (n k : Nat) : plainLines false low n (number k ('\n' :: (spaces j ++ content))) =
      ([], number k ('\n' :: (spaces j ++ content))) := by
  cases n with
  | zero => rfl
  | succ n =>
    have hskip : breakAhead (skipSpaces (number k ('\n' :: (spaces j ++ content)))) = true := by
      rw [skipSpaces_self (by decide)]
      rfl
    -- the gap goes up to the content, whose column ends the scalar
    have hgap : takeGap (number k ('\n' :: (spaces j ++ content))) = (['\n'], number j content) := by
      have := takeGap_number ('\n' :: spaces j) content (fun c hc => by
        rcases List.mem_cons.mp hc with rfl | hc
        · exact Or.inr rfl
        · exact Or.inl (mem_spaces hc)) (fun c hc => by
        obtain ⟨hspace, htab, -, hbreak⟩ := isSolid_iff.mp (hcontent c hc)
        exact ⟨hspace, htab, hbreak⟩) k
      rw [List.cons_append] at this
      rw [this]
      have hcolumn : columnAfter k ('\n' :: spaces j) = j := (columnAfter_spaces 0 j).trans (Nat.zero_add j)
      have hfilter : ('\n' :: spaces j).filter isBreak = ['\n'] := by
        rw [List.filter_cons_of_pos (by decide), filter_isBreak_spaces]
      rw [hcolumn, hfilter]
    have hout : (number j content).head?.any (fun t => decide (low ≤ t.column)) = false := by
      cases content with
      | nil => rfl
      | cons c rest => simpa [number] using hj
    rw [plainLines, hskip, hgap]
    simp [hout]

/-- A scalar without quotes is read up to the end of its line, when the next line is further out. -/
theorem PlainText.plainScalar {cs : List Char} (h : PlainText cs) {low j : Nat} (hj : j < low)
    {content : List Char} (hcontent : Solid content) (k : Nat) :
    plainScalar false low (number k (cs ++ '\n' :: (spaces j ++ content))) =
      some (ofPlain (String.ofList cs), number (k + cs.length) ('\n' :: (spaces j ++ content))) := by
  rw [Yaml.plainScalar, if_pos (h.plainAhead _ k), h.plainLine (endsPlain_break _)]
  simp only [plainLines_number hj hcontent, List.append_nil]

/-- **A scalar without quotes is read**, with what it stands for, up to the content of the next line. -/
theorem inlineNode_plain {cs : List Char} (h : PlainText cs) {low j : Nat} (hj : j < low) {content : List Char}
    (hcontent : Solid content) (k : Nat) :
    inlineNode low (number k (cs ++ '\n' :: (spaces j ++ content))) =
      some (ofPlain (String.ofList cs), number j content) := by
  have hbar := h.not_ahead '|' (by decide) ('\n' :: (spaces j ++ content)) k
  have hfolded := h.not_ahead '>' (by decide) ('\n' :: (spaces j ++ content)) k
  have hbracket := h.not_ahead '[' (by decide) ('\n' :: (spaces j ++ content)) k
  have hbrace := h.not_ahead '\x7b' (by decide) ('\n' :: (spaces j ++ content)) k
  simp only [inlineNode, hbar, hfolded, hbracket, hbrace, h.quotedScalar, h.plainScalar hj hcontent, Bool.or_false]
  show (restOfLine? _ >>= _) = _
  rw [restOfLine?_break]
  exact congrArg (fun rest => some (ofPlain (String.ofList cs), rest)) (nextLine_number hcontent _ j)

/-! ## Keys -/

/-- A key without quotes is read up to after its colon. -/
theorem simpleKey_plain {cs : List Char} (h : PlainText cs) {tail : List Char} (htail : atGap tail = true) (k : Nat) :
    simpleKey (number k (cs ++ ':' :: tail)) =
      some (ofPlain (String.ofList cs), number (k + cs.length + 1) tail) := by
  have hskip : skipSpaces (number (k + cs.length) (':' :: tail)) = number (k + cs.length) (':' :: tail) :=
    skipSpaces_self (by decide) _ _
  have hmark : markAhead ':' (number (k + cs.length) (':' :: tail)) = true := by
    rw [markAhead_number, htail]
    rfl
  simp only [simpleKey, h.quotedScalar, h.plainAhead, h.plainLine (endsPlain_colon htail), if_true,
    Option.bind_eq_bind, Option.bind_some, hskip, hmark]
  rfl

/-- A scalar at the end of its line is no key. -/
theorem simpleKey_plain_line {cs : List Char} (h : PlainText cs) (tail : List Char) (k : Nat) :
    simpleKey (number k (cs ++ '\n' :: tail)) = none := by
  have hskip : skipSpaces (number (k + cs.length) ('\n' :: tail)) = number (k + cs.length) ('\n' :: tail) :=
    skipSpaces_self (by decide) _ _
  have hmark : markAhead ':' (number (k + cs.length) ('\n' :: tail)) = false := by
    rw [markAhead_number]
    rfl
  simp only [simpleKey, h.quotedScalar, h.plainAhead, h.plainLine (endsPlain_break tail), if_true,
    Option.bind_eq_bind, Option.bind_some, hskip, hmark]
  rfl

end Yaml
end TableSpec
