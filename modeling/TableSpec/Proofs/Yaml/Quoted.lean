import TableSpec.Proofs.Text.Hex
import TableSpec.Proofs.Yaml.Spots

/-!
# `Proofs.Yaml.Quoted` — scalars in quotes

Between single quotes only a quote is written in another way; a line that ends is followed by the indentation
of the next, which is passed over together with the line end. Between double quotes everything that could be
passed over is written as an escape, but for spaces inside of a line. So a reader that takes blanks and line
ends together finds runs of one of the two kinds, and each stands for itself.

## Contents
- `SingleText`, `singleQuotedBodyScan_number`: between single quotes.
- `exists_escape`, `doubleQuotedBodyScan_number`: between double quotes.
- `quotedScalar_single`, `quotedScalar_double`.
-/

namespace TableSpec
namespace Yaml

/-! ## Runs -/

/-- The characters of one kind in front. -/
theorem exists_run (q : Char → Bool) {c : Char} (hc : q c = true) (cs : List Char) : ∃ xs ys,
    c :: cs = c :: xs ++ ys ∧ (∀ x ∈ c :: xs, q x = true) ∧ ∀ y, ys.head? = some y → q y = false := by
  refine ⟨cs.takeWhile q, cs.dropWhile q, by simp, ?_, ?_⟩
  · intro x hx
    rcases List.mem_cons.mp hx with rfl | hx
    · exact hc
    · exact List.all_eq_true.mp List.all_takeWhile x hx
  · intro y hy
    have := List.head?_dropWhile_not q cs
    rw [hy] at this
    simpa using this

theorem eq_spaces {cs : List Char} (h : ∀ c ∈ cs, (c == ' ') = true) : cs = spaces cs.length :=
  List.eq_replicate_iff.mpr ⟨rfl, fun c hc => by simpa using h c hc⟩

/-- Neighbours in the back part are neighbours in the whole. -/
theorem anyPair_append {p : Char → Char → Bool} {xs ys : List Char} (h : anyPair p (xs ++ ys) = false) :
    anyPair p ys = false := by
  induction xs with
  | nil => exact h
  | cons x rest ih =>
    cases hrest : rest ++ ys with
    | nil =>
      have : ys = [] := (List.append_eq_nil_iff.mp hrest).2
      rw [this]
      rfl
    | cons y more =>
      rw [List.cons_append, hrest, anyPair, Bool.or_eq_false_iff, ← hrest] at h
      exact ih h.2

/-- What follows a run is not wanted after the last of the run. -/
theorem anyPair_run {p : Char → Char → Bool} {x y : Char} {xs ys : List Char}
    (h : anyPair p (x :: xs ++ y :: ys) = false) : ∃ z ∈ x :: xs, p z y = false := by
  induction xs generalizing x with
  | nil =>
    rw [List.cons_append, List.nil_append, anyPair, Bool.or_eq_false_iff] at h
    exact ⟨x, List.mem_cons_self, h.1⟩
  | cons x' rest ih =>
    rw [List.cons_append, List.cons_append, anyPair, Bool.or_eq_false_iff] at h
    obtain ⟨z, hz, hp⟩ := ih h.2
    exact ⟨z, List.mem_cons_of_mem _ hz, hp⟩

/-! ## Single quotes -/

/-- A text that can be written between single quotes. -/
structure SingleText (cs : List Char) : Prop where
  printable : ∀ c ∈ cs, isPrintable c = true
  noNewline : '\n' ∉ cs
  noSpaceBreak : anyPair (fun a b => a == ' ' && isBreak b) cs = false
  noBreakSpace : anyPair (fun a b => isBreak a && b == ' ') cs = false

/-- What is left of such a text, when its front has been read, is such a text. -/
theorem SingleText.of_append {xs ys : List Char} (h : SingleText (xs ++ ys)) : SingleText ys where
  printable c hc := h.printable c (List.mem_append_right _ hc)
  noNewline hc := h.noNewline (List.mem_append_right _ hc)
  noSpaceBreak := anyPair_append h.noSpaceBreak
  noBreakSpace := anyPair_append h.noBreakSpace

theorem ne_tab_of_isPrintable {c : Char} (h : isPrintable c = true) : c ≠ '\t' := by
  rintro rfl
  exact absurd h (by decide)

/-- Spaces are written as they are. -/
theorem singleQuotedBody_spaces (indent n : Nat) (cs : List Char) :
    singleQuotedBody indent false (spaces n ++ cs) = spaces n ++ singleQuotedBody indent false cs := by
  induction n with
  | zero => rfl
  | succ n ih =>
    show singleQuotedBody indent false (' ' :: (spaces n ++ cs)) = ' ' :: (spaces n ++ _)
    rw [singleQuotedBody, isBreak_space, ih]
    rfl

/-- Line ends are written as they are, and the indentation comes behind the last one. -/
theorem singleQuotedBody_breaks (indent : Nat) {breaks : List Char} (h : ∀ c ∈ breaks, isBreak c = true)
    (hne : breaks ≠ []) (afterBreak : Bool) (cs : List Char) :
    singleQuotedBody indent afterBreak (breaks ++ cs) = breaks ++ singleQuotedBody indent true cs := by
  induction breaks generalizing afterBreak with
  | nil => exact absurd rfl hne
  | cons c rest ih =>
    have hc : isBreak c = true := h c List.mem_cons_self
    have hquote : (c == '\'') = false := by
      have : c ≠ '\'' := by
        rintro rfl
        exact absurd hc (by decide)
      simpa using this
    rw [List.cons_append, singleQuotedBody, hc, hquote]
    cases rest with
    | nil => simp
    | cons d ds =>
      rw [ih (fun e he => h e (List.mem_cons_of_mem _ he)) (by simp)]
      simp

/-- After a line end comes the indentation, unless the text is over. -/
theorem singleQuotedBody_afterBreak (indent : Nat) {cs : List Char}
    (h : ∀ c, cs.head? = some c → isBreak c = false) : singleQuotedBody indent true cs =
      (if cs = [] then [] else spaces indent) ++ singleQuotedBody indent false cs := by
  cases cs with
  | nil => rfl
  | cons c rest =>
    have hc : isBreak c = false := h c rfl
    simp [singleQuotedBody, hc]

/-- A body begins like its text; an empty one is followed by the quote. -/
theorem head?_singleQuotedBody (indent : Nat) (cs tail : List Char) :
    (singleQuotedBody indent false cs ++ '\'' :: tail).head? = some (cs.head?.getD '\'') := by
  cases cs with
  | nil => rfl
  | cons c rest =>
    by_cases hc : c = '\'' <;> simp [singleQuotedBody, hc]

/-- What a run of spaces stands for is the run. -/
theorem takeGap_spaces (n : Nat) {cs : List Char}
    (hcs : ∀ c, cs.head? = some c → c ≠ ' ' ∧ c ≠ '\t' ∧ isBreak c = false) (k : Nat) :
    takeGap (number k (spaces n ++ cs)) = ([], number (k + n) cs) ∧
      chars ((number k (spaces n ++ cs)).takeWhile (fun t => t.char == ' ' || t.char == '\t')) = spaces n := by
  have hgap := takeGap_number (spaces n) cs (fun c hc => Or.inl (mem_spaces hc)) hcs k
  have htake := takeWhile_number (fun c => c == ' ' || c == '\t') (spaces n) cs
    (fun c hc => by simp [mem_spaces hc]) (fun c hc => by simp [hcs c hc]) k
  rw [filter_isBreak_spaces, columnAfter_spaces] at hgap
  exact ⟨hgap, (congrArg chars htake).trans (chars_number k _)⟩

/-- What a run of line ends stands for, with the indentation after it, is the run of line ends. -/
theorem takeGap_breaks {breaks : List Char} (hbreaks : ∀ c ∈ breaks, isBreak c = true) (hne : breaks ≠ [])
    (n : Nat) {cs : List Char} (hcs : ∀ c, cs.head? = some c → c ≠ ' ' ∧ c ≠ '\t' ∧ isBreak c = false) (k : Nat) :
    takeGap (number k (breaks ++ (spaces n ++ cs))) = (breaks, number n cs) := by
  have hgap := takeGap_number (breaks ++ spaces n) cs (fun c hc => by
    rcases List.mem_append.mp hc with hc | hc
    · exact Or.inr (hbreaks c hc)
    · exact Or.inl (mem_spaces hc)) hcs k
  have hfilter : (breaks ++ spaces n).filter isBreak = breaks := by
    rw [List.filter_append, filter_isBreak_spaces, List.append_nil, List.filter_eq_self]
    exact hbreaks
  have hcolumn : columnAfter k (breaks ++ spaces n) = n := by
    have hzero : columnAfter k breaks = 0 := by
      obtain ⟨c, hc⟩ := List.getLast?_isSome.mpr hne |> Option.isSome_iff_exists.mp
      obtain ⟨front, rfl⟩ := List.getLast?_eq_some_iff.mp hc
      have hbreak : isBreak c = true := hbreaks c (by simp)
      simp [columnAfter, List.foldl_append, hbreak]
    rw [columnAfter_append, hzero, columnAfter_spaces, Nat.zero_add]
  rw [List.append_assoc, hfilter, hcolumn] at hgap
  exact hgap

/-- Line ends that do not begin with the usual one stand for themselves. -/
theorem folded_of_ne {c : Char} (hc : c ≠ '\n') (cs : List Char) : folded (c :: cs) = c :: cs := by
  unfold folded
  split
  · rename_i heq
    exact absurd (List.cons.inj heq).1 hc
  · rename_i heq
    exact absurd (List.cons.inj heq).1 hc
  · rfl

/-- A character is a gap when it is a blank or ends a line. -/
theorem atGap_singleton {c : Char} : atGap [c] = false ↔ c ≠ ' ' ∧ c ≠ '\t' ∧ isBreak c = false := by
  simp [atGap, and_assoc]

/-- A character that is neither quote nor gap stands for itself. -/
theorem singleQuotedBodyScan_char {c : Char} {k : Nat} (hk : 0 < k) (hquote : c ≠ '\'')
    (hc : atGap [c] = false) (n : Nat) (cs : List Char) :
    singleQuotedBodyScan (n + 1) (number k (c :: cs)) =
      (singleQuotedBodyScan n (number (k + 1) cs)).map (fun r => (c :: r.1, r.2)) := by
  have hboundary := boundaryAhead_of_pos hk (c :: cs)
  have hgap := gapAhead_number k (c :: cs)
  have hbreak : isBreak c = false := (atGap_singleton.mp hc).2.2
  rw [number_line hbreak] at hboundary hgap ⊢
  rw [atGap_cons, hc] at hgap
  simp [singleQuotedBodyScan, hboundary, hgap, hquote]

/-- Two quotes stand for one. -/
theorem singleQuotedBodyScan_quote {k : Nat} (hk : 0 < k) (n : Nat) (cs : List Char) :
    singleQuotedBodyScan (n + 1) (number k ('\'' :: '\'' :: cs)) =
      (singleQuotedBodyScan n (number (k + 2) cs)).map (fun r => ('\'' :: r.1, r.2)) := by
  have hboundary := boundaryAhead_of_pos hk ('\'' :: '\'' :: cs)
  have hbreak : isBreak '\'' = false := by decide
  rw [number_line hbreak, number_line hbreak] at hboundary ⊢
  simp [singleQuotedBodyScan, hboundary]

/-- A quote that no other one follows ends the scalar. -/
theorem singleQuotedBodyScan_end {tail : List Char} (htail : tail.head? ≠ some '\'') (n k : Nat) :
    singleQuotedBodyScan (n + 1) (number k ('\'' :: tail)) = some ([], number (k + 1) tail) := by
  have hboundary := boundaryAhead_of_ne (c := '\'') (by decide) (by decide) k tail
  have hahead : ahead '\'' (number (k + 1) tail) = false := by
    cases tail with
    | nil => rfl
    | cons d ds =>
      have hd : d ≠ '\'' := fun heq => htail (congrArg some heq)
      simpa [number] using hd
  rw [number_line (by decide)] at hboundary ⊢
  simp [singleQuotedBodyScan, hboundary, hahead]

/-- A gap is taken as a whole: without line ends it is its blanks, else it is folded. -/
theorem singleQuotedBodyScan_gap {c : Char} {k : Nat} (hk : 0 < k) (hc : atGap [c] = true) (n : Nat)
    {cs breaks : List Char} {rest : List Spot} (htake : takeGap (number k (c :: cs)) = (breaks, rest)) :
    singleQuotedBodyScan (n + 1) (number k (c :: cs)) =
      (singleQuotedBodyScan n rest).map (fun r => ((if breaks.isEmpty then
        chars ((number k (c :: cs)).takeWhile (fun t => t.char == ' ' || t.char == '\t'))
        else folded breaks) ++ r.1, r.2)) := by
  have hboundary := boundaryAhead_of_pos hk (c :: cs)
  have hgap := gapAhead_number k (c :: cs)
  have hquote : c ≠ '\'' := by
    rintro rfl
    exact absurd hc (by decide)
  rw [atGap_cons, hc] at hgap
  rw [number] at hboundary hgap htake ⊢
  rw [singleQuotedBodyScan]
  simp [hboundary, hgap, hquote, htake]

/-- What is not passed over in a gap. -/
def NoGap (cs : List Char) : Prop := ∀ c, cs.head? = some c → c ≠ ' ' ∧ c ≠ '\t' ∧ isBreak c = false

/-- Spaces stand for themselves. -/
theorem singleQuotedBodyScan_spaces {k : Nat} (hk : 0 < k) {cs : List Char} (hcs : NoGap cs) (n m : Nat) :
    singleQuotedBodyScan (n + 1) (number k (spaces (m + 1) ++ cs)) =
      (singleQuotedBodyScan n (number (k + (m + 1)) cs)).map (fun r => (spaces (m + 1) ++ r.1, r.2)) := by
  obtain ⟨htake, hblanks⟩ := takeGap_spaces (m + 1) hcs k
  refine (singleQuotedBodyScan_gap hk (c := ' ') rfl n htake).trans ?_
  refine congrArg (fun blanks => (singleQuotedBodyScan n (number (k + (m + 1)) cs)).map
    (fun r => (blanks ++ r.1, r.2))) ?_
  exact hblanks

/-- Line ends stand for themselves, and the indentation after them for nothing. -/
theorem singleQuotedBodyScan_breaks {k : Nat} (hk : 0 < k) {c : Char} {breaks cs : List Char} (hcs : NoGap cs)
    (hbreaks : ∀ d ∈ c :: breaks, isBreak d = true) (hnewline : c ≠ '\n') (n indent : Nat) :
    singleQuotedBodyScan (n + 1) (number k (c :: breaks ++ (spaces indent ++ cs))) =
      (singleQuotedBodyScan n (number indent cs)).map (fun r => (c :: breaks ++ r.1, r.2)) := by
  have htake := takeGap_breaks hbreaks (by simp) indent hcs k
  have hgap : atGap [c] = true := by simp [atGap, hbreaks c List.mem_cons_self]
  refine (singleQuotedBodyScan_gap hk hgap n htake).trans ?_
  rw [folded_of_ne hnewline]
  rfl

/-- What a text goes on with after a run is not passed over with it. -/
theorem noGap_singleQuotedBody {cs : List Char} (htext : SingleText cs) (hspace : cs.head? ≠ some ' ')
    (hbreak : ∀ c, cs.head? = some c → isBreak c = false) (indent : Nat) (tail : List Char) :
    NoGap (singleQuotedBody indent false cs ++ '\'' :: tail) := by
  intro c hc
  rw [head?_singleQuotedBody, Option.some.injEq] at hc
  cases cs with
  | nil =>
    subst hc
    decide
  | cons d rest =>
    have hd : d = c := hc
    subst hd
    exact ⟨fun heq => hspace (congrArg some heq),
      ne_tab_of_isPrintable (htext.printable d List.mem_cons_self), hbreak d rfl⟩

/-- A text that begins with spaces goes on with something else than a gap. -/
theorem SingleText.exists_spaces {rest : List Char} (h : SingleText (' ' :: rest)) : ∃ m ys,
    ' ' :: rest = spaces (m + 1) ++ ys ∧ SingleText ys ∧ ys.head? ≠ some ' ' ∧
      ∀ c, ys.head? = some c → isBreak c = false := by
  obtain ⟨xs, ys, hsplit, hxs, hys⟩ := exists_run (· == ' ') (c := ' ') rfl rest
  rw [hsplit] at h ⊢
  refine ⟨xs.length, ys, congrArg (· ++ ys) (eq_spaces hxs), h.of_append, ?_, ?_⟩
  · intro heq
    exact absurd (hys ' ' heq) (by decide)
  · intro c hc
    obtain ⟨ys', rfl⟩ := List.head?_eq_some_iff.mp hc
    obtain ⟨z, hz, hp⟩ := anyPair_run h.noSpaceBreak
    simpa [eq_of_beq (hxs z hz)] using hp

/-- A text that begins with line ends goes on with something else than a gap. -/
theorem SingleText.exists_breaks {c : Char} {rest : List Char} (hc : isBreak c = true)
    (h : SingleText (c :: rest)) : ∃ xs ys, c :: rest = c :: xs ++ ys ∧ (∀ x ∈ c :: xs, isBreak x = true) ∧
      SingleText ys ∧ ys.head? ≠ some ' ' ∧ ∀ y, ys.head? = some y → isBreak y = false := by
  obtain ⟨xs, ys, hsplit, hxs, hys⟩ := exists_run isBreak hc rest
  rw [hsplit] at h ⊢
  refine ⟨xs, ys, rfl, hxs, h.of_append, ?_, hys⟩
  intro heq
  obtain ⟨ys', rfl⟩ := List.head?_eq_some_iff.mp heq
  obtain ⟨z, hz, hp⟩ := anyPair_run h.noBreakSpace
  rw [hxs z hz] at hp
  exact absurd hp (by decide)

/-- **Between single quotes** a text reads as itself. The first character is not at the start of a line. -/
theorem singleQuotedBodyScan_number {indent : Nat} {tail : List Char} (htail : tail.head? ≠ some '\'')
    {cs : List Char} (htext : SingleText cs) (hindent : 0 < indent ∨ ∀ c ∈ cs, isBreak c = false)
    {n k : Nat} (hn : cs.length < n) (hk : 0 < k ∨ cs = []) :
    ∃ k', singleQuotedBodyScan n (number k (singleQuotedBody indent false cs ++ '\'' :: tail)) =
      some (cs, number k' tail) := by
  -- the induction goes run by run
  induction hlength : cs.length using Nat.strongRecOn generalizing cs n k with
  | ind m ih =>
    obtain ⟨n, rfl⟩ : ∃ m, n = m + 1 := ⟨n - 1, by omega⟩
    cases cs with
    | nil => exact ⟨k + 1, singleQuotedBodyScan_end htail n k⟩
    | cons c rest =>
      have hkpos : 0 < k := hk.resolve_right (by simp)
      by_cases hspace : c = ' '
      · subst hspace
        -- a run of spaces is read at once, as the text goes on with a character of its own
        obtain ⟨i, ys, hsplit, htextYs, hysSpace, hysBreak⟩ := htext.exists_spaces
        rw [hsplit] at hindent hn hlength ⊢
        rw [List.length_append, spaces, List.length_replicate] at hn hlength
        obtain ⟨k', hread⟩ := @ih ys.length (by omega) ys htextYs
          (hindent.imp_right fun h d hd => h d (List.mem_append_right _ hd)) n (k + (i + 1)) (by omega)
          (Or.inl (by omega)) rfl
        refine ⟨k', ?_⟩
        rw [singleQuotedBody_spaces, List.append_assoc,
          singleQuotedBodyScan_spaces hkpos (noGap_singleQuotedBody htextYs hysSpace hysBreak _ _), hread]
        rfl
      by_cases hbreak : isBreak c = true
      · obtain ⟨xs, ys, hsplit, hxs, htextYs, hysSpace, hysBreak⟩ := htext.exists_breaks hbreak
        -- a run of line ends is read at once, with the indentation that is written after it
        have hindentPos : 0 < indent := by
          refine hindent.resolve_right fun h => ?_
          rw [h c List.mem_cons_self] at hbreak
          exact absurd hbreak (by simp)
        have hnewline : c ≠ '\n' := fun heq => htext.noNewline (by simp [heq])
        rw [hsplit] at hn hlength ⊢
        rw [List.length_append, List.length_cons] at hn hlength
        -- the indentation is there when the text goes on
        obtain ⟨lead, hlead, hleadPos⟩ : ∃ lead, (if ys = [] then [] else spaces indent) = spaces lead ∧
            (0 < lead ∨ ys = []) := by
          by_cases hnil : ys = []
          · exact ⟨0, by rw [if_pos hnil]; rfl, Or.inr hnil⟩
          · exact ⟨indent, if_neg hnil, Or.inl hindentPos⟩
        obtain ⟨k', hread⟩ := @ih ys.length (by omega) ys htextYs (Or.inl hindentPos) n lead (by omega) hleadPos rfl
        refine ⟨k', ?_⟩
        rw [singleQuotedBody_breaks indent hxs (by simp), singleQuotedBody_afterBreak indent hysBreak, hlead,
          List.append_assoc, List.append_assoc,
          singleQuotedBodyScan_breaks hkpos (noGap_singleQuotedBody htextYs hysSpace hysBreak _ _) hxs hnewline,
          hread]
        rfl
      have hline : isBreak c = false := by simpa using hbreak
      have htextRest : SingleText rest := @SingleText.of_append [c] rest htext
      have hindentRest : 0 < indent ∨ ∀ d ∈ rest, isBreak d = false :=
        hindent.imp_right fun h d hd => h d (List.mem_cons_of_mem _ hd)
      rw [List.length_cons] at hn hlength
      by_cases hquote : c = '\''
      · -- a quote is written twice
        subst hquote
        obtain ⟨k', hread⟩ := @ih rest.length (by omega) rest htextRest hindentRest n (k + 2) (by omega)
          (Or.inl (by omega)) rfl
        refine ⟨k', ?_⟩
        have hwritten : singleQuotedBody indent false ('\'' :: rest) =
            '\'' :: '\'' :: singleQuotedBody indent false rest := by
          simp [singleQuotedBody, hline]
        rw [hwritten, List.cons_append, List.cons_append, singleQuotedBodyScan_quote hkpos, hread]
        rfl
      -- any other character stands for itself
      · have hgap : atGap [c] = false :=
          atGap_singleton.mpr ⟨hspace, ne_tab_of_isPrintable (htext.printable c List.mem_cons_self), hline⟩
        obtain ⟨k', hread⟩ := @ih rest.length (by omega) rest htextRest hindentRest n (k + 1) (by omega)
          (Or.inl (by omega)) rfl
        refine ⟨k', ?_⟩
        have hwritten : singleQuotedBody indent false (c :: rest) = c :: singleQuotedBody indent false rest := by
          simp [singleQuotedBody, hline, hquote]
        rw [hwritten, List.cons_append, singleQuotedBodyScan_char hkpos hquote hgap, hread]
        rfl

/-! ## Escapes -/

theorem isLineChar_hexDigitChar : ∀ n, n < 16 → isLineChar (hexDigitChar n) = true := by decide

/-- What is found in a table is in it. -/
theorem mem_of_lookup {code : Nat} {letter : Char} {table : List (Nat × Char)}
    (h : table.lookup code = some letter) : (code, letter) ∈ table := by
  obtain ⟨before, after, rfl, -⟩ := List.lookup_eq_some_iff.mp h
  exact List.mem_append_right _ List.mem_cons_self

/-- The letter of an escape stands for what it is written for. -/
theorem lookup_letterEscapes : ∀ e ∈ escapes, letterEscapes.lookup e.2 = some e.1 ∧ isLineChar e.2 = true := by
  decide

/-- What can be written as it is between double quotes. -/
def isBare (c : Char) : Bool := isPrintable c && !isBreak c && c != '"' && c != '\\'

/-- The digits of an escape stand for the character that they are written for. -/
theorem escapeScan_digits {letter : Char} {count : Nat} (hletter : letterEscapes.lookup letter = none)
    (hcount : digitEscapes.lookup letter = some count) (hline : isBreak letter = false) {c : Char}
    (hc : c.toNat < Nat.pow 16 count) (k : Nat) (cs : List Char) :
    escapeScan (number k (letter :: (hexDigits count c.toNat ++ cs))) =
      some (c, number (columnAfter (k + 1) (hexDigits count c.toNat)) cs) := by
  have htake := take_number (k + 1) (hexDigits count c.toNat) cs
  have hdrop := drop_number (k + 1) (hexDigits count c.toNat) cs
  rw [length_hexDigits] at htake hdrop
  have hchar : hexChar? count (hexDigits count c.toNat) = some c := by
    simpa using hexChar?_hexDigits hc []
  rw [number_line hline, escapeScan]
  simp only [hletter, hcount, htake, hdrop, chars_number, hchar, Option.map_some]

/-- The digits of an escape stand on one line. -/
theorem isLineChar_of_mem_hexDigits {count n : Nat} : ∀ c ∈ hexDigits count n, isLineChar c = true :=
  forall_mem_hexDigits isLineChar_hexDigitChar count n

/-- A character that is not bare is written as an escape, which is on one line and stands for it. -/
theorem exists_escape {c : Char} (hc : isBare c = false) : ∃ e, escapeChar c = '\\' :: e ∧ e ≠ [] ∧
    (∀ d ∈ e, isLineChar d = true) ∧
    ∀ k cs, escapeScan (number k (e ++ cs)) = some (c, number (columnAfter k e) cs) := by
  have hnot : ¬(isPrintable c && !isBreak c && c != '"' && c != '\\') = true := by
    show ¬isBare c = true
    simp [hc]
  rw [escapeChar, if_neg hnot]
  -- the three kinds of escapes with digits differ in their letter and the number of digits
  have hdigits : ∀ letter count, letterEscapes.lookup letter = none → digitEscapes.lookup letter = some count →
      isLineChar letter = true → c.toNat < Nat.pow 16 count →
      ∃ e, '\\' :: letter :: hexDigits count c.toNat = '\\' :: e ∧ e ≠ [] ∧ (∀ d ∈ e, isLineChar d = true) ∧
        ∀ k cs, escapeScan (number k (e ++ cs)) = some (c, number (columnAfter k e) cs) := by
    intro letter count hletter hcount hchar hlt
    have hline := (isLineChar_iff.mp hchar).2
    refine ⟨letter :: hexDigits count c.toNat, rfl, by simp, ?_, fun k cs => ?_⟩
    · intro d hd
      rcases List.mem_cons.mp hd with rfl | hd
      · exact hchar
      · exact isLineChar_of_mem_hexDigits d hd
    · have hcolumn : columnAfter k (letter :: hexDigits count c.toNat) =
          columnAfter (k + 1) (hexDigits count c.toNat) := by
        simp [columnAfter, hline]
      rw [hcolumn]
      exact escapeScan_digits hletter hcount hline hlt k cs
  cases hlookup : escapes.lookup c.toNat with
  | some letter =>
    obtain ⟨hletter, hchar⟩ := lookup_letterEscapes _ (mem_of_lookup hlookup)
    have hline := (isLineChar_iff.mp hchar).2
    refine ⟨[letter], rfl, by simp, by simpa using hchar, fun k cs => ?_⟩
    rw [List.cons_append, List.nil_append, number_line hline, escapeScan]
    simp only [hletter, Char.ofNat_toNat]
    rw [columnAfter_line (by simpa using hline)]
    rfl
  | none =>
    by_cases hsmall : c.toNat < 0x100
    · simp only [hsmall, if_true]
      exact hdigits 'x' 2 (by decide) (by decide) (by decide) hsmall
    by_cases hmiddle : c.toNat < 0x10000
    · simp only [hsmall, hmiddle, if_true, if_false]
      exact hdigits 'u' 4 (by decide) (by decide) (by decide) hmiddle
    · simp only [hsmall, hmiddle, if_false]
      exact hdigits 'U' 8 (by decide) (by decide) (by decide) (toNat_lt_pow c)

/-! ## Double quotes -/

/-- A character that needs no escape is written as it is. -/
theorem escapeChar_of_isBare {c : Char} (hc : isBare c = true) : escapeChar c = [c] := by
  have : (isPrintable c && !isBreak c && c != '"' && c != '\\') = true := hc
  rw [escapeChar, this]
  rfl

theorem isBare_iff {c : Char} : isBare c = true ↔
    isPrintable c = true ∧ isBreak c = false ∧ c ≠ '"' ∧ c ≠ '\\' := by
  simp [isBare, and_assoc]

/-- Whatever the character is, it is written on one line. -/
theorem isLineChar_escapeChar (c : Char) : ∀ d ∈ escapeChar c, isLineChar d = true := by
  cases hc : isBare c with
  | true =>
    obtain ⟨hprintable, hline, -, -⟩ := isBare_iff.mp hc
    rw [escapeChar_of_isBare hc]
    simpa using isLineChar_iff.mpr ⟨hprintable, hline⟩
  | false =>
    obtain ⟨e, he, -, hchars, -⟩ := exists_escape hc
    rw [he]
    exact List.forall_mem_cons.mpr ⟨by decide, hchars⟩

theorem flatMap_escapeChar_spaces (n : Nat) : (spaces n).flatMap escapeChar = spaces n := by
  induction n with
  | zero => rfl
  | succ n ih =>
    show escapeChar ' ' ++ (spaces n).flatMap escapeChar = ' ' :: spaces n
    rw [ih, escapeChar_of_isBare (by decide)]
    rfl

/-- What a text goes on with after spaces is not passed over with them. -/
theorem noGap_flatMap_escapeChar {cs : List Char} (hspace : cs.head? ≠ some ' ') (tail : List Char) :
    NoGap (cs.flatMap escapeChar ++ '"' :: tail) := by
  intro c hc
  cases cs with
  | nil =>
    cases hc
    decide
  | cons d rest =>
    rw [List.flatMap_cons] at hc
    cases hd : isBare d with
    | true =>
      rw [escapeChar_of_isBare hd] at hc
      cases hc
      obtain ⟨hprintable, hline, -, -⟩ := isBare_iff.mp hd
      exact ⟨fun heq => hspace (congrArg some heq), ne_tab_of_isPrintable hprintable, hline⟩
    | false =>
      obtain ⟨e, he, -⟩ := exists_escape hd
      rw [he] at hc
      cases hc
      decide

/-- A quote ends the scalar, wherever it stands. -/
theorem doubleQuotedBodyScan_end (n k : Nat) (tail : List Char) :
    doubleQuotedBodyScan (n + 1) (number k ('"' :: tail)) = some ([], number (k + 1) tail) := by
  have hboundary := boundaryAhead_of_ne (c := '"') (by decide) (by decide) k tail
  rw [number_line (by decide)] at hboundary ⊢
  simp [doubleQuotedBodyScan, hboundary]

/-- A character that needs no escape stands for itself. -/
theorem doubleQuotedBodyScan_char {c : Char} {k : Nat} (hk : 0 < k) (hc : isBare c = true) (hspace : c ≠ ' ')
    (n : Nat) (cs : List Char) : doubleQuotedBodyScan (n + 1) (number k (c :: cs)) =
      (doubleQuotedBodyScan n (number (k + 1) cs)).map (fun r => (c :: r.1, r.2)) := by
  obtain ⟨hprintable, hline, hquote, hbackslash⟩ := isBare_iff.mp hc
  have hboundary := boundaryAhead_of_pos hk (c :: cs)
  have hgap := gapAhead_number k (c :: cs)
  rw [atGap_cons, atGap_singleton.mpr ⟨hspace, ne_tab_of_isPrintable hprintable, hline⟩] at hgap
  rw [number_line hline] at hboundary hgap ⊢
  simp [doubleQuotedBodyScan, hboundary, hgap, hquote, hbackslash]

/-- Blanks on a line stand for themselves, as no line end follows. -/
theorem doubleQuotedBodyScan_spaces {k : Nat} (hk : 0 < k) {cs : List Char} (hcs : NoGap cs) (n m : Nat) :
    doubleQuotedBodyScan (n + 1) (number k (spaces (m + 1) ++ cs)) =
      (doubleQuotedBodyScan n (number (k + (m + 1)) cs)).map (fun r => (spaces (m + 1) ++ r.1, r.2)) := by
  obtain ⟨htake, hblanks⟩ := takeGap_spaces (m + 1) hcs k
  have hboundary := boundaryAhead_of_pos hk (spaces (m + 1) ++ cs)
  have hgap : gapAhead (number k (spaces (m + 1) ++ cs)) = true := rfl
  have hcons : number k (spaces (m + 1) ++ cs) = ⟨' ', k⟩ :: number (k + 1) (spaces m ++ cs) := rfl
  rw [hcons] at htake hblanks hboundary hgap ⊢
  rw [doubleQuotedBodyScan]
  simp only [hboundary, hgap, htake, hblanks]
  rfl

/-- Behind a backslash an escape is read, and the column goes on behind it. -/
theorem doubleQuotedBodyScan_escape {k : Nat} (hk : 0 < k) {c : Char} {e : List Char} (hne : e ≠ [])
    (hline : ∀ d ∈ e, isBreak d = false)
    (hscan : ∀ k cs, escapeScan (number k (e ++ cs)) = some (c, number (columnAfter k e) cs)) (n : Nat)
    (cs : List Char) : doubleQuotedBodyScan (n + 1) (number k ('\\' :: (e ++ cs))) =
      (doubleQuotedBodyScan n (number (k + 1 + e.length) cs)).map (fun r => (c :: r.1, r.2)) := by
  have hboundary := boundaryAhead_of_pos hk ('\\' :: (e ++ cs))
  have hbreak : breakAhead (number (k + 1) (e ++ cs)) = false := by
    obtain ⟨d, rest, rfl⟩ := List.exists_cons_of_ne_nil hne
    exact hline d List.mem_cons_self
  rw [number_line (by decide)] at hboundary ⊢
  rw [doubleQuotedBodyScan]
  have hquote : ('\\' == '"') = false := by decide
  have hbackslash : ('\\' == '\\') = true := rfl
  simp only [hboundary, hbreak, hscan, columnAfter_line hline, hquote, hbackslash, if_true,
    Bool.false_eq_true, if_false, Option.bind_eq_bind, Option.bind_some]
  cases doubleQuotedBodyScan n (number (k + 1 + e.length) cs) <;> rfl

/-- **Between double quotes** a text reads as itself, whatever is in it. -/
theorem doubleQuotedBodyScan_number (tail : List Char) {cs : List Char} {n k : Nat} (hn : cs.length < n)
    (hk : 0 < k) : ∃ k', doubleQuotedBodyScan n (number k (cs.flatMap escapeChar ++ '"' :: tail)) =
      some (cs, number k' tail) := by
  induction hlength : cs.length using Nat.strongRecOn generalizing cs n k with
  | ind m ih =>
    obtain ⟨n, rfl⟩ : ∃ m, n = m + 1 := ⟨n - 1, by omega⟩
    cases cs with
    | nil => exact ⟨k + 1, doubleQuotedBodyScan_end n k tail⟩
    | cons c rest =>
      by_cases hspace : c = ' '
      · subst hspace
        -- a run of spaces is read at once; line ends are escapes here, so there is no other gap
        obtain ⟨xs, ys, hsplit, hxs, hys⟩ := exists_run (· == ' ') (c := ' ') rfl rest
        rw [eq_spaces hxs] at hsplit
        rw [hsplit] at hn hlength ⊢
        simp only [List.length_append, List.length_cons, spaces, List.length_replicate] at hn hlength
        have hysSpace : ys.head? ≠ some ' ' := fun heq => absurd (hys ' ' heq) (by decide)
        obtain ⟨k', hread⟩ := @ih ys.length (by omega) ys n (k + (xs.length + 1)) (by omega) (by omega) rfl
        refine ⟨k', ?_⟩
        rw [List.flatMap_append, flatMap_escapeChar_spaces, List.append_assoc, List.length_cons,
          doubleQuotedBodyScan_spaces hk (noGap_flatMap_escapeChar hysSpace _), hread]
        rfl
      rw [List.length_cons] at hn hlength
      rw [List.flatMap_cons, List.append_assoc]
      cases hbare : isBare c with
      | true =>
        obtain ⟨k', hread⟩ := @ih rest.length (by omega) rest n (k + 1) (by omega) (by omega) rfl
        refine ⟨k', ?_⟩
        rw [escapeChar_of_isBare hbare, List.cons_append, List.nil_append,
          doubleQuotedBodyScan_char hk hbare hspace, hread]
        rfl
      | false =>
        obtain ⟨e, he, hne, hchars, hscan⟩ := exists_escape hbare
        have hline : ∀ d ∈ e, isBreak d = false := fun d hd => (isLineChar_iff.mp (hchars d hd)).2
        obtain ⟨k', hread⟩ := @ih rest.length (by omega) rest n (k + 1 + e.length) (by omega) (by omega) rfl
        refine ⟨k', ?_⟩
        rw [he, List.cons_append, doubleQuotedBodyScan_escape hk hne hline hscan, hread]
        rfl

/-! ## Scalars -/

/-- What stands between single quotes is the text, its indentation and further quotes. -/
theorem mem_singleQuotedBody {indent : Nat} {afterBreak : Bool} {cs : List Char} {c : Char}
    (h : c ∈ singleQuotedBody indent afterBreak cs) : c ∈ cs ∨ c = ' ' ∨ c = '\'' := by
  induction cs generalizing afterBreak with
  | nil => cases h
  | cons d rest ih =>
    rw [singleQuotedBody] at h
    rcases List.mem_append.mp h with h | h
    · rcases List.mem_append.mp h with h | h
      · split at h
        · exact Or.inr (Or.inl (mem_spaces h))
        · cases h
      · split at h
        · exact Or.inr (Or.inr (by simpa using h))
        · exact Or.inl (by simpa using Or.inl h)
    · rcases ih h with h | h
      · exact Or.inl (List.mem_cons_of_mem _ h)
      · exact Or.inr h

/-- Writing makes no text shorter, so that the bound of the reader is enough. -/
theorem length_singleQuotedBody (indent : Nat) (afterBreak : Bool) (cs : List Char) :
    cs.length ≤ (singleQuotedBody indent afterBreak cs).length := by
  induction cs generalizing afterBreak with
  | nil => exact Nat.le_refl _
  | cons c rest ih =>
    have hwritten : 1 ≤ (if c == '\'' then ['\'', '\''] else [c]).length := by split <;> simp
    have := ih (isBreak c)
    simp only [singleQuotedBody, List.length_append, List.length_cons]
    omega

/-- Nor does writing with escapes. -/
theorem length_flatMap_escapeChar (cs : List Char) : cs.length ≤ (cs.flatMap escapeChar).length := by
  induction cs with
  | nil => exact Nat.le_refl _
  | cons c rest ih =>
    have hwritten : 1 ≤ (escapeChar c).length := by
      cases hc : isBare c with
      | true => rw [escapeChar_of_isBare hc]; exact Nat.le_refl _
      | false =>
        obtain ⟨e, he, -⟩ := exists_escape hc
        rw [he]
        simp
    rw [List.flatMap_cons, List.length_append, List.length_cons]
    omega

/-- **A text between single quotes is read**, when no further quote follows. -/
theorem quotedScalar_single {indent : Nat} {cs tail : List Char} (htext : SingleText cs)
    (hindent : 0 < indent ∨ ∀ c ∈ cs, isBreak c = false) (htail : tail.head? ≠ some '\'') (k : Nat) :
    ∃ k', quotedScalar (number k (singleQuoted indent cs ++ tail)) =
      some (text (String.ofList cs), number k' tail) := by
  have hlength := length_singleQuotedBody indent false cs
  have hfuel : cs.length < (singleQuotedBody indent false cs ++ '\'' :: tail).length + 1 := by
    rw [List.length_append]
    omega
  obtain ⟨k', hread⟩ := singleQuotedBodyScan_number htail htext hindent hfuel (Or.inl (Nat.succ_pos k))
  refine ⟨k', ?_⟩
  have hwritten : singleQuoted indent cs ++ tail = '\'' :: (singleQuotedBody indent false cs ++ '\'' :: tail) := by
    simp [singleQuoted]
  rw [hwritten, number_line (by decide), quotedScalar, length_number, hread]
  rfl

/-- **A text between double quotes is read.** -/
theorem quotedScalar_double (cs tail : List Char) (k : Nat) :
    ∃ k', quotedScalar (number k (doubleQuoted cs ++ tail)) =
      some (text (String.ofList cs), number k' tail) := by
  have hlength := length_flatMap_escapeChar cs
  have hfuel : cs.length < (cs.flatMap escapeChar ++ '"' :: tail).length + 1 := by
    rw [List.length_append]
    omega
  obtain ⟨k', hread⟩ := doubleQuotedBodyScan_number tail hfuel (Nat.succ_pos k)
  refine ⟨k', ?_⟩
  have hwritten : doubleQuoted cs ++ tail = '"' :: (cs.flatMap escapeChar ++ '"' :: tail) := by
    simp [doubleQuoted]
  rw [hwritten, number_line (by decide), quotedScalar, length_number]
  simp only [hread]
  rfl

end Yaml
end TableSpec
