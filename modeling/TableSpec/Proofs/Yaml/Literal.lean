import TableSpec.Proofs.Yaml.Quoted

/-!
# `Proofs.Yaml.Literal` — texts that are written as the lines that they have

The lines of a literal text that are not empty are indented; empty ones are not. A reader takes lines as long
as they are indented far enough, and keeps the last line end apart, with the empty lines after it: the mark
behind the bar says what becomes of them.

A text is line ends in front, then a part that neither begins nor ends with a line end, then line ends. The
reader takes the part in the middle line by line (`blockLines_lines`).

## Contents
- `literalBody_breaks`, `literalBody_line`: what is written of empty lines and others.
- `dropIndent_number`, `emptyLines_number`, `blockLines_lines`: what is read of them.
- `blockHeader_literal`, `detectIndent_number`: the header.
- `blockScalar_literal`: literal texts.
-/

namespace TableSpec
namespace Yaml

/-! ## What is written -/

/-- Empty lines are not indented. -/
theorem literalBody_breaks (indent : Nat) {breaks : List Char} (h : ∀ c ∈ breaks, isBreak c = true)
    (cs : List Char) : literalBody indent true (breaks ++ cs) = breaks ++ literalBody indent true cs := by
  induction breaks with
  | nil => rfl
  | cons c rest ih =>
    have hc : isBreak c = true := h c List.mem_cons_self
    rw [List.cons_append, literalBody, hc, ih fun d hd => h d (List.mem_cons_of_mem _ hd)]
    rfl

/-- A line with something on it is. -/
theorem literalBody_afterBreak (indent : Nat) {c : Char} (hc : isBreak c = false) (cs : List Char) :
    literalBody indent true (c :: cs) = spaces indent ++ literalBody indent false (c :: cs) := by
  simp [literalBody, hc]

/-- A line is written as it is, up to its end. -/
theorem literalBody_line (indent : Nat) {line : List Char} (h : ∀ c ∈ line, isBreak c = false) {c : Char}
    (hc : isBreak c = true) (cs : List Char) :
    literalBody indent false (line ++ c :: cs) = line ++ c :: literalBody indent true cs := by
  induction line with
  | nil => simp [literalBody, hc]
  | cons d rest ih =>
    have hd : isBreak d = false := h d List.mem_cons_self
    rw [List.cons_append, literalBody, hd, ih fun e he => h e (List.mem_cons_of_mem _ he)]
    rfl

/-- The end of the last line is no part of the text when the text has none. -/
theorem literalBody_ending (indent : Nat) (afterBreak : Bool) (cs : List Char) :
    literalBody indent afterBreak cs ++ ['\n'] = literalBody indent afterBreak (cs ++ ['\n']) := by
  induction cs generalizing afterBreak with
  | nil => cases afterBreak <;> rfl
  | cons c rest ih => simp [literalBody, ih]

/-- The end of the last line as it is written. -/
def ending (cs : List Char) : List Char := if cs.getLast?.any isBreak then [] else ['\n']

/-- The line ends behind a text belong to its body. -/
theorem literalBody_append_ending (indent : Nat) (afterBreak : Bool) (cs : List Char) :
    literalBody indent afterBreak cs ++ ending cs = literalBody indent afterBreak (cs ++ ending cs) := by
  rw [ending]
  split
  · rw [List.append_nil, List.append_nil]
  · exact literalBody_ending indent afterBreak cs

/-! ## What is read -/

/-- Spaces before a column are left out, up to the column or something else than a space. -/
theorem dropIndent_number {indent k i : Nat} {cs : List Char} (hle : k + i ≤ indent)
    (hcs : k + i = indent ∨ cs.head? ≠ some ' ') :
    dropIndent indent (number k (spaces i ++ cs)) = number (k + i) cs := by
  induction i generalizing k with
  | zero =>
    show dropIndent indent (number k cs) = number k cs
    cases cs with
    | nil => rfl
    | cons c rest =>
      have hstop : (c == ' ' && decide (k < indent)) = false := by
        rcases hcs with heq | hne
        · have : ¬k < indent := by omega
          simp [this]
        · have : c ≠ ' ' := fun heq => hne (congrArg some heq)
          simp [this]
      simp only [dropIndent, number, List.dropWhile_cons, hstop]
      rfl
  | succ i ih =>
    have hlt : k < indent := by omega
    have hrest := @ih (k + 1) (by omega) (by rwa [Nat.add_assoc, Nat.add_comm 1 i])
    have hcons : number k (spaces (i + 1) ++ cs) = ⟨' ', k⟩ :: number (k + 1) (spaces i ++ cs) := rfl
    have hstep : dropIndent indent (number k (spaces (i + 1) ++ cs)) =
        dropIndent indent (number (k + 1) (spaces i ++ cs)) := by
      rw [hcons]
      simp [dropIndent, hlt]
    rw [hstep, hrest]
    congr 1
    omega

/-- What is read after empty lines: the lines that are left of the text, or what follows it further out. -/
def afterEmpty (indent j : Nat) (lines content : List Char) : List Spot :=
  if lines = [] then number j content
  else number indent (literalBody indent false lines ++ (spaces j ++ content))

/-- **Empty lines** are taken up to a line that is not. -/
theorem emptyLines_number {indent j : Nat} (hj : j < indent) {breaks lines content : List Char}
    (hbreaks : ∀ c ∈ breaks, isBreak c = true) (hlines : ∀ c, lines.head? = some c → isBreak c = false)
    (hcontent : Solid content) {n : Nat} (hn : breaks.length < n) :
    emptyLines indent n (number 0 (literalBody indent true (breaks ++ lines) ++ (spaces j ++ content))) =
      (breaks, afterEmpty indent j lines content) := by
  obtain ⟨n, rfl⟩ : ∃ m, n = m + 1 := ⟨n - 1, by omega⟩
  rw [literalBody_breaks indent hbreaks]
  induction breaks generalizing n with
  | nil =>
    cases lines with
    | nil =>
      -- nothing is left of the text: the line in front is further out, and not empty
      have hdrop := @dropIndent_number indent 0 j content (by omega)
        (Or.inr fun heq => absurd (hcontent ' ' heq) (by decide))
      rw [Nat.zero_add] at hdrop
      show emptyLines indent (n + 1) (number 0 (spaces j ++ content)) = _
      rw [emptyLines, hdrop, afterEmpty, if_pos rfl]
      cases content with
      | nil => rfl
      | cons c rest =>
        have hc : isBreak c = false := (isSolid_iff.mp (hcontent c rfl)).2.2.2
        simp [number, hc]
    | cons c rest =>
      -- a line of the text is in front: its indentation is left out, and nothing more
      have hc : isBreak c = false := hlines c rfl
      have hdrop := @dropIndent_number indent 0 indent
        (literalBody indent false (c :: rest) ++ (spaces j ++ content)) (by omega) (Or.inl (by omega))
      rw [Nat.zero_add] at hdrop
      rw [List.nil_append, literalBody_afterBreak indent hc, List.append_assoc, emptyLines, hdrop, afterEmpty,
        if_neg (by simp)]
      simp [literalBody, number, hc]
  | cons c rest ih =>
    have hc : isBreak c = true := hbreaks c List.mem_cons_self
    have hspace : c ≠ ' ' := by
      rintro rfl
      exact absurd hc (by decide)
    obtain ⟨n, rfl⟩ : ∃ m, n = m + 1 := ⟨n - 1, by rw [List.length_cons] at hn; omega⟩
    -- an empty line has no indentation that could be left out
    have hrest := ih (fun d hd => hbreaks d (List.mem_cons_of_mem _ hd)) n (by simpa using hn)
    let more := rest ++ literalBody indent true lines ++ (spaces j ++ content)
    have hdrop := @dropIndent_number indent 0 0 (c :: more) (by omega)
      (Or.inr fun heq => hspace (Option.some.inj heq))
    have hcons : number 0 (c :: more) = ⟨c, 0⟩ :: number 0 more := by
      rw [number, hc]
      rfl
    show emptyLines indent (n + 1 + 1) (number 0 (c :: more)) = _
    rw [emptyLines, show dropIndent indent (number 0 (c :: more)) = number 0 (c :: more) from hdrop, hcons]
    simp only [hc, if_true]
    rw [hrest]

/-- What becomes of the last line end and of those after it. -/
def chomped (chomping : Chomping) (pending breaks : List Char) : List Char :=
  match chomping with
  | .strip => []
  | .clip => pending
  | .keep => pending ++ breaks

/-- A line that is further out ends the text. -/
theorem blockLines_end {indent j : Nat} (hj : j < indent) (chomping : Chomping) (n : Nat) (blankBefore : Bool)
    (pending breaks content : List Char) :
    blockLines false chomping indent (n + 1) blankBefore pending breaks (number j content) =
      (chomped chomping pending breaks, number j content) := by
  have hout : (number j content).head?.any (fun t => t.column == indent) = false := by
    cases content with
    | nil => rfl
    | cons c rest =>
      have : j ≠ indent := by omega
      simpa [number] using this
  unfold blockLines
  rw [hout]
  cases chomping <;> rfl

/-- Whether a blank is in front. -/
def blankAhead (ts : List Spot) : Bool := ts.head?.any (fun t => t.char == ' ' || t.char == '\t')

/-- One line, with its end and the empty lines after it. -/
theorem blockLines_line {indent j : Nat} (hj : j < indent) (chomping : Chomping) (n : Nat) (blankBefore : Bool)
    {pending breaks line ends lines content : List Char} {c : Char} (hline : ∀ d ∈ line, isBreak d = false)
    (hne : line ≠ []) (hc : isBreak c = true) (hends : ∀ d ∈ ends, isBreak d = true)
    (hlines : ∀ d, lines.head? = some d → isBreak d = false) (hcontent : Solid content) : ∃ blank,
    blockLines false chomping indent (n + 1) blankBefore pending breaks
        (number indent (literalBody indent false (line ++ c :: (ends ++ lines)) ++ (spaces j ++ content))) =
      ((pending ++ breaks ++ line ++
          (blockLines false chomping indent n blank [c] ends (afterEmpty indent j lines content)).1),
        (blockLines false chomping indent n blank [c] ends (afterEmpty indent j lines content)).2) := by
  let more := literalBody indent true (ends ++ lines) ++ (spaces j ++ content)
  have htext : literalBody indent false (line ++ c :: (ends ++ lines)) ++ (spaces j ++ content) =
      line ++ c :: more := by
    rw [literalBody_line indent hline hc]
    simp [more]
  have htake := takeWhile_number (fun c => !isBreak c) line (c :: more)
    (fun e he => by simp [hline e he]) (fun e he => by cases he; simp [hc]) indent
  have hdrop := drop_number indent line (c :: more)
  have hcons : ∀ k, number k (c :: more) = ⟨c, k⟩ :: number 0 more := by
    intro k
    rw [number, hc]
    rfl
  have hread : ∀ m, ends.length < m → emptyLines indent m (number 0 more) =
      (ends, afterEmpty indent j lines content) :=
    fun m hm => emptyLines_number hj hends hlines hcontent hm
  have hfuel : ends.length < (number (columnAfter indent line) (c :: more)).length + 1 := by
    simp only [length_number, List.length_cons, more, literalBody_breaks indent hends, List.length_append]
    omega
  have hat : (number indent (line ++ c :: more)).head?.any (fun t => t.column == indent) = true := by
    obtain ⟨d, rest, rfl⟩ := List.exists_cons_of_ne_nil hne
    simp [number]
  refine ⟨blankAhead (number indent (line ++ c :: more)), ?_⟩
  rw [htext]
  conv => lhs; unfold blockLines
  rw [if_pos hat]
  simp only [htake, length_number, hdrop, hcons, List.tail_cons, Bool.false_and, chars_number, blankAhead]
  rw [hread _ (by rwa [hcons] at hfuel)]
  rfl

/-- The part of a text that is neither the line ends in front of it nor those at its end. -/
structure Lines (cs : List Char) : Prop where
  ne_nil : cs ≠ []
  head : ∀ c, cs.head? = some c → isBreak c = false
  last : ∀ c, cs.getLast? = some c → isBreak c = false

/-- A part of several lines is a line, its end, empty lines and a part of fewer lines. -/
theorem Lines.split {cs : List Char} (h : Lines cs) : (∀ c ∈ cs, isBreak c = false) ∨
    ∃ line c ends lines, cs = line ++ c :: (ends ++ lines) ∧ (∀ d ∈ line, isBreak d = false) ∧ line ≠ [] ∧
      isBreak c = true ∧ (∀ d ∈ ends, isBreak d = true) ∧ Lines lines := by
  -- the first line, then its end and the line ends after it, then the rest
  let line := cs.takeWhile (fun c => !isBreak c)
  have hline : ∀ d ∈ line, isBreak d = false := fun d hd => by
    simpa using List.all_eq_true.mp List.all_takeWhile d hd
  have hcs : line ++ cs.dropWhile (fun c => !isBreak c) = cs := List.takeWhile_append_dropWhile
  cases hrest : cs.dropWhile (fun c => !isBreak c) with
  | nil =>
    rw [hrest, List.append_nil] at hcs
    exact Or.inl (hcs ▸ hline)
  | cons c rest =>
    rw [hrest] at hcs
    have hc : isBreak c = true := by
      have := List.head?_dropWhile_not (fun c => !isBreak c) cs
      rw [hrest] at this
      simpa using this
    -- the part does not begin with a line end, so the line is not empty
    have hne : line ≠ [] := by
      intro heq
      rw [heq, List.nil_append] at hcs
      have := h.head c (by rw [← hcs]; rfl)
      rw [hc] at this
      cases this
    have hlast : ∀ d, (c :: rest).getLast? = some d → isBreak d = false := by
      intro d hd
      refine h.last d ?_
      rw [← hcs, List.getLast?_append, hd]
      rfl
    have hsplit : rest.takeWhile isBreak ++ rest.dropWhile isBreak = rest := List.takeWhile_append_dropWhile
    have hends : ∀ d ∈ rest.takeWhile isBreak, isBreak d = true := fun d hd =>
      List.all_eq_true.mp List.all_takeWhile d hd
    refine Or.inr ⟨line, c, rest.takeWhile isBreak, rest.dropWhile isBreak, ?_, hline, hne, hc, hends, ?_, ?_, ?_⟩
    · rw [hsplit, hcs]
    · -- were nothing left, the part would end with a line end
      intro heq
      rw [heq, List.append_nil] at hsplit
      have hbreaks : ∀ d ∈ c :: rest, isBreak d = true := by
        intro d hd
        rcases List.mem_cons.mp hd with rfl | hd
        · exact hc
        · exact hends d (hsplit.symm ▸ hd)
      have hbreak := hbreaks _ (List.getLast_mem (List.cons_ne_nil c rest))
      rw [hlast _ (List.getLast?_eq_some_getLast (List.cons_ne_nil c rest))] at hbreak
      cases hbreak
    · intro d hd
      have := List.head?_dropWhile_not isBreak rest
      rw [hd] at this
      simpa using this
    · intro d hd
      refine hlast d ?_
      rw [← hsplit, ← List.cons_append, List.getLast?_append, hd]
      rfl

/-- **The lines of a text** are read one by one, up to its last line end and those after it. -/
theorem blockLines_lines {indent j : Nat} (hj : j < indent) (chomping : Chomping) {content : List Char}
    (hcontent : Solid content) {c : Char} (hc : isBreak c = true) {ends : List Char}
    (hends : ∀ d ∈ ends, isBreak d = true) {lines : List Char} (hlines : Lines lines) {n : Nat}
    (hn : lines.length < n) (blankBefore : Bool) (pending breaks : List Char) :
    blockLines false chomping indent n blankBefore pending breaks
        (number indent (literalBody indent false (lines ++ c :: ends) ++ (spaces j ++ content))) =
      (pending ++ breaks ++ lines ++ chomped chomping [c] ends, number j content) := by
  induction hlength : lines.length using Nat.strongRecOn generalizing lines n blankBefore pending breaks with
  | ind m ih =>
    obtain ⟨n, rfl⟩ : ∃ m, n = m + 1 := ⟨n - 1, by omega⟩
    rcases hlines.split with hline | ⟨line, d, between, more, rfl, hline, hne, hd, hbetween, hmore⟩
    · obtain ⟨blank, hread⟩ := @blockLines_line indent j hj chomping n blankBefore pending breaks lines ends []
        content c hline hlines.ne_nil hc hends (fun d hd => by cases hd) hcontent
      obtain ⟨n, rfl⟩ : ∃ m, n = m + 1 := ⟨n - 1, by
        have := List.length_pos_iff.mpr hlines.ne_nil
        omega⟩
      rw [List.append_nil] at hread
      rw [hread, afterEmpty, if_pos rfl, blockLines_end hj]
    · -- after any other line there are fewer lines left
      have hhead : ∀ e, (more ++ c :: ends).head? = some e → isBreak e = false := by
        intro e he
        obtain ⟨f, rest, rfl⟩ := List.exists_cons_of_ne_nil hmore.ne_nil
        exact hmore.head e he
      obtain ⟨blank, hread⟩ := @blockLines_line indent j hj chomping n blankBefore pending breaks line between
        (more ++ c :: ends) content d hline hne hd hbetween hhead hcontent
      have hshorter : more.length < (line ++ d :: (between ++ more)).length := by
        simp only [List.length_append, List.length_cons]
        omega
      have hrest := ih more.length (hlength ▸ hshorter) hmore (n := n) (by omega) blank [d] between rfl
      have hassoc : line ++ d :: (between ++ more) ++ c :: ends =
          line ++ d :: (between ++ (more ++ c :: ends)) := by simp
      rw [hassoc, hread, afterEmpty, if_neg (by simp), hrest]
      simp

/-! ## The end of a text -/

/-- A text of more than line ends has lines, with line ends in front and behind. -/
theorem exists_lines (cs : List Char) : (∀ c ∈ cs, isBreak c = true) ∨
    ∃ front lines ends, cs = front ++ (lines ++ ends) ∧ (∀ c ∈ front, isBreak c = true) ∧ Lines lines ∧
      ∀ c ∈ ends, isBreak c = true := by
  induction cs with
  | nil => exact Or.inl fun c hc => by cases hc
  | cons c rest ih =>
    cases hc : isBreak c with
    | true =>
      rcases ih with hall | ⟨front, lines, ends, rfl, hfront, hlines, hends⟩
      · exact Or.inl (List.forall_mem_cons.mpr ⟨hc, hall⟩)
      · exact Or.inr ⟨c :: front, lines, ends, rfl, List.forall_mem_cons.mpr ⟨hc, hfront⟩, hlines, hends⟩
    | false =>
      have hhead : ∀ (more : List Char) d, (c :: more).head? = some d → isBreak d = false := by
        intro more d hd
        cases hd
        exact hc
      rcases ih with hall | ⟨front, lines, ends, rfl, hfront, hlines, hends⟩
      · refine Or.inr ⟨[], [c], rest, rfl, by simp, ⟨by simp, hhead [], ?_⟩, hall⟩
        exact fun d hd => hhead [] d hd
      · refine Or.inr ⟨[], c :: (front ++ lines), ends, by simp, by simp, ⟨by simp, hhead _, ?_⟩, hends⟩
        intro d hd
        refine hlines.last d ?_
        rw [← List.cons_append, List.getLast?_append] at hd
        rw [List.getLast?_eq_some_getLast hlines.ne_nil] at hd ⊢
        exact hd

/-- The mark for what becomes of the line ends. -/
def chompingMark : Chomping → List Char
  | .strip => ['-']
  | .clip => []
  | .keep => ['+']

/-- A text that ends on a line loses the newline that is written behind it. -/
theorem chomping_line {cs : List Char} {c : Char} (h : cs.getLast? = some c) (hc : isBreak c = false) :
    chomping cs = chompingMark .strip := by
  rw [List.getLast?_eq_head?_reverse] at h
  rw [chomping]
  cases hrev : cs.reverse with
  | nil => rfl
  | cons d before =>
    rw [hrev] at h
    cases h
    simp [hc, chompingMark]

/-- A text that ends with one newline has it kept; with more of them all are kept. -/
theorem chomping_break (cs : List Char) {c : Char} (hc : isBreak c = true) :
    chomping (cs ++ [c]) =
      if cs.getLast?.any (fun d => !isBreak d) then chompingMark .clip else chompingMark .keep := by
  rw [List.getLast?_eq_head?_reverse, chomping, List.reverse_append]
  cases cs.reverse with
  | nil => simp [hc, chompingMark]
  | cons d before => cases hd : isBreak d <;> simp [hc, hd, chompingMark]

/-- What follows the lines is read again: the mark says what becomes of it. -/
theorem exists_ending (front : List Char) {lines ends : List Char} (hlines : Lines lines)
    (hends : ∀ d ∈ ends, isBreak d = true) : ∃ mode c more,
      chomping (front ++ (lines ++ ends)) = chompingMark mode ∧ isBreak c = true ∧ (∀ d ∈ more, isBreak d = true) ∧
      ends ++ ending (front ++ (lines ++ ends)) = c :: more ∧ chomped mode [c] more = ends := by
  have hlast := List.getLast?_eq_some_getLast hlines.ne_nil
  have hline := hlines.last _ hlast
  have hbefore : (front ++ lines).getLast? = some (lines.getLast hlines.ne_nil) := by
    rw [List.getLast?_append, hlast]
    rfl
  rcases ends with _ | ⟨c, more⟩
  · refine ⟨.strip, '\n', [], ?_, by decide, by simp, ?_, rfl⟩
    · rw [List.append_nil, chomping_line hbefore hline]
    · rw [List.append_nil, ending, hbefore, Option.any_some, hline]
      rfl
  · have hbreak : isBreak ((c :: more).getLast (List.cons_ne_nil c more)) = true := hends _ (List.getLast_mem _)
    have hending : ending (front ++ (lines ++ c :: more)) = [] := by
      rw [ending, List.getLast?_append, List.getLast?_append,
        List.getLast?_eq_some_getLast (List.cons_ne_nil c more)]
      simp [hbreak]
    obtain ⟨hc, hmore⟩ := List.forall_mem_cons.mp hends
    rw [hending, List.append_nil]
    -- one line end is kept without being said, of several each has to be
    cases more with
    | nil =>
      refine ⟨.clip, c, [], ?_, hc, by simp, rfl, rfl⟩
      rw [← List.append_assoc, chomping_break _ hc, hbefore]
      simp [hline]
    | cons d rest =>
      refine ⟨.keep, c, d :: rest, ?_, hc, hmore, rfl, rfl⟩
      have hne : d :: rest ≠ [] := List.cons_ne_nil d rest
      have hsplit : front ++ (lines ++ c :: d :: rest) =
          (front ++ lines ++ c :: (d :: rest).dropLast) ++ [(d :: rest).getLast hne] := by
        rw [List.append_assoc, List.append_assoc, List.cons_append, List.dropLast_concat_getLast]
      have hbreaks : ∀ e ∈ c :: (d :: rest).dropLast, isBreak e = true :=
        List.forall_mem_cons.mpr ⟨hc, fun e he => hmore e (List.dropLast_subset _ he)⟩
      rw [hsplit, chomping_break _ (hmore _ (List.getLast_mem hne)), List.getLast?_append,
        List.getLast?_eq_some_getLast (List.cons_ne_nil c _)]
      simp [hbreaks _ (List.getLast_mem (List.cons_ne_nil c _))]

/-- A text of newlines only keeps all of them. -/
theorem chomping_breaks {cs : List Char} (hne : cs ≠ []) (h : ∀ c ∈ cs, isBreak c = true) :
    chomping cs = chompingMark .keep := by
  -- what is before the last of the line ends is a line end as well, or nothing
  have hbefore : cs.dropLast.getLast?.any (fun d => !isBreak d) = false := by
    refine Option.any_eq_false _ _ |>.mpr fun c hc => ?_
    simp [h c (List.dropLast_subset _ (List.mem_of_getLast? hc))]
  have hlast := chomping_break cs.dropLast (h _ (List.getLast_mem hne))
  rwa [List.dropLast_concat_getLast, hbefore] at hlast

/-- What is read of a text is that text. -/
theorem exists_body (indent : Nat) {j : Nat} (hj : j < indent) {content : List Char} (hcontent : Solid content)
    {cs : List Char} (hne : cs ≠ []) : ∃ mode front more,
      chomping cs = chompingMark mode ∧ cs ++ ending cs = front ++ more ∧
      (∀ c ∈ front, isBreak c = true) ∧ (∀ c, more.head? = some c → isBreak c = false) ∧
      ∀ n, more.length < n → blockLines false mode indent n false [] front (afterEmpty indent j more content) =
        (cs, number j content) := by
  -- a text of line ends only has no lines, and all of it is read as empty lines
  rcases exists_lines cs with hall | ⟨front, lines, ends, rfl, hfront, hlines, hends⟩
  · refine ⟨.keep, cs, [], chomping_breaks hne hall, ?_, hall, by simp, ?_⟩
    · have hlast := hall _ (List.getLast_mem hne)
      rw [ending, List.getLast?_eq_some_getLast hne, Option.any_some, if_pos hlast]
    · intro n hn
      obtain ⟨n, rfl⟩ : ∃ m, n = m + 1 := ⟨n - 1, by omega⟩
      rw [afterEmpty, if_pos rfl, blockLines_end hj]
      rfl
  · obtain ⟨mode, c, more, hmode, hc, hmore, hending, hchomped⟩ := exists_ending front hlines hends
    refine ⟨mode, front, lines ++ c :: more, hmode, ?_, hfront, ?_, ?_⟩
    · rw [← hending]
      simp
    · intro d hd
      obtain ⟨e, rest, rfl⟩ := List.exists_cons_of_ne_nil hlines.ne_nil
      exact hlines.head d hd
    · intro n hn
      have hshorter : lines.length < n := by
        rw [List.length_append] at hn
        omega
      rw [afterEmpty, if_neg (by simp), blockLines_lines hj mode hcontent hc hmore hlines hshorter, hchomped]
      simp

/-! ## The header -/

/-- The digit that gives the indentation away, where the text would not. -/
def hint (hinted : Bool) : List Char := if hinted then ['2'] else []

/-- A header is read as the mark and the digit that it was made of. -/
theorem blockHeader_literal (hinted : Bool) (mode : Chomping) :
    blockHeader (hint hinted ++ chompingMark mode) = some (if hinted then some 2 else none, mode) := by
  cases hinted <;> cases mode <;> rfl

theorem atGap_header (hinted : Bool) (mode : Chomping) :
    ∀ c ∈ hint hinted ++ chompingMark mode, atGap [c] = false := by
  have hall : (hint hinted ++ chompingMark mode).all (fun c => !atGap [c]) = true := by
    cases hinted <;> cases mode <;> rfl
  intro c hc
  simpa using List.all_eq_true.mp hall c hc

/-- The first line that holds something shows the indentation. -/
theorem detectIndent_number (n indent : Nat) {c : Char} (hc : isBreak c = false) (hspace : c ≠ ' ')
    (cs : List Char) : detectIndent (n + 1) 0 (number 0 (spaces indent ++ c :: cs)) = indent := by
  have htake := takeWhile_number (fun c => c == ' ') (spaces indent) (c :: cs)
    (fun d hd => by simp [mem_spaces hd]) (fun d hd => by cases hd; simpa using hspace) 0
  have hlength : (spaces indent).length = indent := List.length_replicate
  have hdrop := drop_number 0 (spaces indent) (c :: cs)
  rw [hlength, columnAfter_spaces, number_line hc] at hdrop
  rw [detectIndent]
  simp only [htake, length_number, hlength, hdrop, hc, Nat.zero_max]
  rfl

/-- The indentation is two further in than the collection, whether the header says so or the first line. -/
theorem indent_literal (context n : Nat) {text : List Char} {c : Char} (hhead : text.head? = some c)
    (tail : List Char) :
    (if c == ' ' || isBreak c then some 2 else none : Option Nat).elim
      (max (max (detectIndent (n + 1) 0 (number 0 (literalBody (context + 2) true text ++ tail))) (context + 1)) 1)
      (fun width => context + width) = context + 2 := by
  obtain ⟨rest, rfl⟩ : ∃ rest, text = c :: rest := by
    cases text with
    | nil => cases hhead
    | cons d rest => cases hhead; exact ⟨rest, rfl⟩
  cases hc : (c == ' ' || isBreak c) with
  | true => rfl
  | false =>
    rw [Bool.or_eq_false_iff, beq_eq_false_iff_ne] at hc
    have hbody : literalBody (context + 2) false (c :: rest) = c :: literalBody (context + 2) false rest := by
      simp [literalBody, hc.2]
    have hdetect := detectIndent_number n (context + 2) hc.2 hc.1 (literalBody (context + 2) false rest ++ tail)
    rw [literalBody_afterBreak _ hc.2, hbody, List.append_assoc, List.cons_append, hdetect]
    simp

/-- A scalar behind a bar is read as its header says. -/
theorem blockScalar_header {header body : List Char} (hgap : ∀ c ∈ header, atGap [c] = false)
    {width : Option Nat} {mode : Chomping} (hheader : blockHeader header = some (width, mode))
    {context indent : Nat} (hindent : width.elim
      (max (max (detectIndent (body.length + 1) 0 (number 0 body)) (context + 1)) 1)
      (fun width => context + width) = indent)
    {breaks : List Char} {rest : List Spot}
    (hempty : emptyLines indent (body.length + 1) (number 0 body) = (breaks, rest))
    (htab : rest.head?.any (fun u => u.char == '\t' && decide (u.column < indent)) = false) (k : Nat) :
    blockScalar (context + 1) (number k ('|' :: (header ++ '\n' :: body))) =
      some (text (String.ofList (blockLines false mode indent (rest.length + 1) false [] breaks rest).1),
        (blockLines false mode indent (rest.length + 1) false [] breaks rest).2) := by
  -- the header goes up to the end of its line
  have htake : (number (k + 1) (header ++ '\n' :: body)).takeWhile (fun u => !gapAhead [u]) =
      number (k + 1) header :=
    takeWhile_number (fun c => !atGap [c]) header ('\n' :: body) (fun d hd => by simp [hgap d hd])
      (fun d hd => by cases hd; rfl) (k + 1)
  have hdrop := drop_number (k + 1) header ('\n' :: body)
  have htail : ∀ k', (number k' ('\n' :: body)).tail = number 0 body := fun _ => rfl
  rw [number_line (by decide), blockScalar]
  simp only [htake, chars_number, hheader, length_number, hdrop, restOfLine?_break, Option.bind_eq_bind,
    Option.bind_some, htail]
  -- whether the indentation is given or detected, it is `indent`
  cases width with
  | none =>
    rw [Option.elim_none] at hindent
    simp only [hindent, hempty, htab]
    rfl
  | some width =>
    rw [Option.elim_some] at hindent
    simp only [Nat.add_sub_cancel, if_neg (Nat.succ_ne_zero context), hindent, hempty, htab]
    rfl

/-! ## Literal texts -/

/-- Indentation makes no text shorter, so that the bound of the reader is enough. -/
theorem length_literalBody (indent : Nat) (afterBreak : Bool) (cs : List Char) :
    cs.length ≤ (literalBody indent afterBreak cs).length := by
  induction cs generalizing afterBreak with
  | nil => exact Nat.le_refl _
  | cons c rest ih =>
    have := ih (isBreak c)
    simp only [literalBody, List.length_append, List.length_cons]
    omega

/-- No line of a block is indented with a tab. -/
theorem afterEmpty_ne_tab (indent j : Nat) {lines content : List Char}
    (hlines : ∀ c, lines.head? = some c → isBreak c = false) (hcontent : Solid content) :
    (afterEmpty indent j lines content).head?.any (fun u => u.char == '\t' && decide (u.column < indent)) =
      false := by
  cases lines with
  | nil =>
    cases content with
    | nil => rfl
    | cons c rest =>
      have hc : c ≠ '\t' := (isSolid_iff.mp (hcontent c rfl)).2.1
      simp [afterEmpty, number, hc]
  | cons c rest => simp [afterEmpty, literalBody, hlines c rfl, number]

theorem length_afterEmpty (indent j : Nat) (lines content : List Char) :
    lines.length < (afterEmpty indent j lines content).length + 1 := by
  have := length_literalBody indent false lines
  rw [afterEmpty]
  split
  · simp [*]
  · rw [length_number, List.length_append]
    omega

/-- **A literal text is read**, up to the content of the line after its last. -/
theorem blockScalar_literal {context j : Nat} (hj : j ≤ context) {cs : List Char} (hne : cs ≠ [])
    {content : List Char} (hcontent : Solid content) (k : Nat) :
    blockScalar (context + 1) (number k (literal (context + 2) cs ++ (spaces j ++ content))) =
      some (text (String.ofList cs), number j content) := by
  obtain ⟨mode, front, more, hmode, hsplit, hfront, hmore, hread⟩ :=
    exists_body (context + 2) (j := j) (by omega) hcontent hne
  obtain ⟨c, rest, rfl⟩ := List.exists_cons_of_ne_nil hne
  let hinted := c == ' ' || isBreak c
  let body := literalBody (context + 2) true (front ++ more) ++ (spaces j ++ content)
  -- the parts of the written form: header, line end, lines
  have hwritten : literal (context + 2) (c :: rest) ++ (spaces j ++ content) =
      '|' :: (hint hinted ++ chompingMark mode ++ '\n' :: body) := by
    have hliteral : literal (context + 2) (c :: rest) = '|' :: (hint hinted ++ chomping (c :: rest) ++
        '\n' :: literalBody (context + 2) true (c :: rest) ++ ending (c :: rest)) := rfl
    have hend := literalBody_append_ending (context + 2) true (c :: rest)
    rw [hsplit] at hend
    rw [hliteral, hmode]
    simp [body, ← hend]
  have hindent := @indent_literal context body.length (front ++ more) c (by rw [← hsplit]; rfl)
    (spaces j ++ content)
  -- the bounds on the numbers of lines are those on characters
  have hlength : front.length + more.length ≤ body.length := by
    have := length_literalBody (context + 2) true (front ++ more)
    simp only [body, List.length_append] at this ⊢
    omega
  have hempty : emptyLines (context + 2) (body.length + 1) (number 0 body) =
      (front, afterEmpty (context + 2) j more content) :=
    emptyLines_number (by omega) hfront hmore hcontent (by omega)
  have htab := afterEmpty_ne_tab (context + 2) j hmore hcontent
  have hbar := blockScalar_header (atGap_header hinted mode) (blockHeader_literal hinted mode)
    hindent hempty htab k
  rw [hwritten, hbar, hread _ (length_afterEmpty _ _ _ _)]

end Yaml
end TableSpec
