import TableSpec.Yaml.Reader

/-!
# `Proofs.Yaml.Spots` — moving over spots

A reader of YAML goes over characters with their columns. What is said here is said of a text of which the
first character is at some column (`number`), and of what is in front of it: blanks, a line end, or content.
Content is *solid* when it begins with a character that is neither passed over nor begins a comment.

After each value that is written, the line ends, some spaces follow, and then solid content, or nothing. All
ways of going to the next line arrive at it (`nextLine_number`).

## Contents
- `columnAfter`, `number_append`: texts one after the other.
- `takeWhile_number`, `dropWhile_number`, `skipSpaces_number`, `takeGap_number`.
- `Solid`, `nextLine_number`, `restOfLine?_break`, `onLine?_space`, `onLine?_break`.
- `spots?_printable`: a text of printable characters has spots.
-/

namespace TableSpec
namespace Yaml

/-! ## Columns -/

/-- The column after a text that begins at column `k`. -/
def columnAfter (k : Nat) (cs : List Char) : Nat :=
  cs.foldl (fun column c => if isBreak c then 0 else column + 1) k

/-- What follows is numbered from the column that the first part ends in. -/
theorem number_append (k : Nat) (xs ys : List Char) :
    number k (xs ++ ys) = number k xs ++ number (columnAfter k xs) ys := by
  induction xs generalizing k with
  | nil => rfl
  | cons c rest ih =>
    rw [List.cons_append, number, number, ih]
    rfl

/-- The column after a text is found part by part. -/
theorem columnAfter_append (k : Nat) (xs ys : List Char) :
    columnAfter k (xs ++ ys) = columnAfter (columnAfter k xs) ys := List.foldl_append

/-- On a line each character is one column further on. -/
theorem number_line {c : Char} (h : isBreak c = false) (k : Nat) (cs : List Char) :
    number k (c :: cs) = ⟨c, k⟩ :: number (k + 1) cs := by
  rw [number, h]
  rfl

/-- On one line columns are counted. -/
theorem columnAfter_line {cs : List Char} (h : ∀ c ∈ cs, isBreak c = false) (k : Nat) :
    columnAfter k cs = k + cs.length := by
  induction cs generalizing k with
  | nil => rfl
  | cons c rest ih =>
    have hc : isBreak c = false := h c List.mem_cons_self
    have hrest := ih (fun d hd => h d (List.mem_cons_of_mem _ hd)) (k + 1)
    have hstep : columnAfter k (c :: rest) = columnAfter (k + 1) rest := by simp [columnAfter, hc]
    rw [hstep, hrest, List.length_cons]
    omega

theorem isBreak_space : isBreak ' ' = false := by decide

theorem mem_spaces {n : Nat} {c : Char} (h : c ∈ spaces n) : c = ' ' := (List.mem_replicate.mp h).2

theorem filter_isBreak_spaces (n : Nat) : (spaces n).filter isBreak = [] := by
  refine List.filter_eq_nil_iff.mpr fun c hc => ?_
  simp [mem_spaces hc, isBreak_space]

/-- Spaces take one column each. -/
theorem columnAfter_spaces (k n : Nat) : columnAfter k (spaces n) = k + n := by
  rw [columnAfter_line (fun c hc => mem_spaces hc ▸ isBreak_space)]
  simp [spaces]

/-- Numbering keeps the characters. -/
@[simp] theorem chars_number (k : Nat) (cs : List Char) : chars (number k cs) = cs := by
  induction cs generalizing k with
  | nil => rfl
  | cons c rest ih => exact congrArg (c :: ·) (ih _)

@[simp] theorem length_number (k : Nat) (cs : List Char) : (number k cs).length = cs.length := by
  rw [← List.length_map (f := Spot.char), ← chars, chars_number]

/-- What is left of a text after the spots of its front. -/
theorem drop_number (k : Nat) (xs ys : List Char) :
    (number k (xs ++ ys)).drop xs.length = number (columnAfter k xs) ys := by
  rw [number_append, ← length_number k xs, List.drop_left]

/-- As many spots are taken as there are characters. -/
theorem take_number (k : Nat) (xs ys : List Char) : (number k (xs ++ ys)).take xs.length = number k xs := by
  rw [number_append, ← length_number k xs, List.take_left]

/-! ## What is in front -/

@[simp] theorem ahead_cons (c : Char) (t : Spot) (ts : List Spot) : ahead c (t :: ts) = (t.char == c) := rfl

@[simp] theorem breakAhead_cons (t : Spot) (ts : List Spot) : breakAhead (t :: ts) = isBreak t.char := rfl

theorem atGap_cons (c : Char) (cs : List Char) : atGap (c :: cs) = atGap [c] := rfl

/-- Whether a gap follows does not depend on the column. -/
@[simp] theorem gapAhead_number (k : Nat) (cs : List Char) : gapAhead (number k cs) = atGap cs := by
  cases cs with
  | nil => rfl
  | cons c rest => rfl

/-- A mark is followed by a gap, on whichever column it stands. -/
theorem markAhead_number (mark : Char) (k : Nat) (c : Char) (cs : List Char) :
    markAhead mark (number k (c :: cs)) = (c == mark && atGap cs) := by
  rw [markAhead, number, ahead_cons, List.tail_cons, gapAhead_number]

/-- A document does not end in the middle of a line. -/
theorem boundaryAhead_of_pos {k : Nat} (hk : 0 < k) (cs : List Char) : boundaryAhead (number k cs) = false := by
  cases cs with
  | nil => rfl
  | cons c rest =>
    have : (k == 0) = false := by simpa using Nat.ne_of_gt hk
    simp [boundaryAhead, number, this]

/-- A document ends only where three dashes or points are. -/
theorem boundaryAhead_of_ne {c : Char} (hdash : c ≠ '-') (hpoint : c ≠ '.') (k : Nat) (cs : List Char) :
    boundaryAhead (number k (c :: cs)) = false := by
  have hchars : chars ((number k (c :: cs)).take 3) = c :: cs.take 2 := by
    rw [chars, List.map_take]
    show List.take 3 (chars (number k (c :: cs))) = _
    rw [chars_number]
    rfl
  simp [boundaryAhead, hchars, hdash, hpoint]

/-! ## Passing over characters of one kind -/

/-- Characters of a kind are taken up to the first one of another kind. -/
theorem takeWhile_number (q : Char → Bool) (xs ys : List Char) (hxs : ∀ c ∈ xs, q c = true)
    (hys : ∀ c, ys.head? = some c → q c = false) (k : Nat) :
    (number k (xs ++ ys)).takeWhile (fun t => q t.char) = number k xs := by
  induction xs generalizing k with
  | nil =>
    cases ys with
    | nil => rfl
    | cons c rest => simp [number, hys c rfl]
  | cons c rest ih =>
    have hrest := ih (fun d hd => hxs d (List.mem_cons_of_mem _ hd)) (if isBreak c then 0 else k + 1)
    simp only [List.cons_append, number, List.takeWhile_cons, hxs c List.mem_cons_self, if_true, hrest]

/-- What is left behind them goes on in the column that they end in. -/
theorem dropWhile_number (q : Char → Bool) (xs ys : List Char) (hxs : ∀ c ∈ xs, q c = true)
    (hys : ∀ c, ys.head? = some c → q c = false) (k : Nat) :
    (number k (xs ++ ys)).dropWhile (fun t => q t.char) = number (columnAfter k xs) ys := by
  induction xs generalizing k with
  | nil =>
    cases ys with
    | nil => rfl
    | cons c rest => simp [number, hys c rfl, columnAfter]
  | cons c rest ih =>
    have hrest := ih (fun d hd => hxs d (List.mem_cons_of_mem _ hd)) (if isBreak c then 0 else k + 1)
    simp only [List.cons_append, number, List.dropWhile_cons, hxs c List.mem_cons_self, if_true, hrest]
    rfl

/-- A character that is neither a blank nor a line end, nor begins a comment. -/
def isSolid (c : Char) : Bool := !(c == ' ' || c == '\t' || c == '#' || isBreak c)

/-- A text that is over, or begins with something that is not passed over. -/
def Solid (cs : List Char) : Prop := ∀ c, cs.head? = some c → isSolid c = true

/-- A solid character is no blank, begins no comment and ends no line. -/
theorem isSolid_iff {c : Char} : isSolid c = true ↔ c ≠ ' ' ∧ c ≠ '\t' ∧ c ≠ '#' ∧ isBreak c = false := by
  simp [isSolid, and_assoc]

theorem solid_nil : Solid [] := fun c h => by cases h

theorem solid_cons {c : Char} {cs : List Char} (h : isSolid c = true) : Solid (c :: cs) := by
  intro d hd
  cases hd
  exact h

/-- Spaces are passed over, up to what is no blank. -/
theorem skipSpaces_number {cs : List Char} (hcs : ∀ c, cs.head? = some c → c ≠ ' ' ∧ c ≠ '\t') (k n : Nat) :
    skipSpaces (number k (spaces n ++ cs)) = number (k + n) cs := by
  have hdrop := dropWhile_number (fun c => c == ' ' || c == '\t') (spaces n) cs
    (fun c hc => by simp [mem_spaces hc]) (fun c hc => by simp [hcs c hc]) k
  rw [columnAfter_spaces] at hdrop
  exact hdrop

/-- Where no blank stands there is nothing to skip. -/
theorem skipSpaces_self {c : Char} (hc : c ≠ ' ' ∧ c ≠ '\t') (k : Nat) (cs : List Char) :
    skipSpaces (number k (c :: cs)) = number k (c :: cs) := by
  simp [skipSpaces, number, hc]

/-- Blanks and line ends are passed over, up to what is neither. -/
theorem takeGap_number (gap cs : List Char) (hgap : ∀ c ∈ gap, c = ' ' ∨ isBreak c = true)
    (hcs : ∀ c, cs.head? = some c → c ≠ ' ' ∧ c ≠ '\t' ∧ isBreak c = false) (k : Nat) :
    takeGap (number k (gap ++ cs)) = (gap.filter isBreak, number (columnAfter k gap) cs) := by
  have htake := takeWhile_number (fun c => c == ' ' || c == '\t' || isBreak c) gap cs
    (fun c hc => by rcases hgap c hc with h | h <;> simp [h]) (fun c hc => by simp [hcs c hc]) k
  show ((chars ((number k (gap ++ cs)).takeWhile (fun t => (fun c => c == ' ' || c == '\t' || isBreak c) t.char))).filter
    isBreak, (number k (gap ++ cs)).drop ((number k (gap ++ cs)).takeWhile
      (fun t => (fun c => c == ' ' || c == '\t' || isBreak c) t.char)).length) = _
  rw [htake, chars_number, length_number, drop_number]

/-! ## To the next line -/

/-- Solid text begins no comment. -/
theorem skipComment_number {cs : List Char} (h : Solid cs) (k : Nat) : skipComment (number k cs) = number k cs := by
  cases cs with
  | nil => rfl
  | cons c rest =>
    have hc : c ≠ '#' := (isSolid_iff.mp (h c rfl)).2.2.1
    simp [skipComment, number, hc]

theorem breakAhead_solid {cs : List Char} (h : Solid cs) (k : Nat) : breakAhead (number k cs) = false := by
  cases cs with
  | nil => rfl
  | cons c rest => exact (isSolid_iff.mp (h c rfl)).2.2.2

/-- On a line of its own, solid text is found behind the blanks that it is indented by. -/
theorem nextContent_number {cs : List Char} (h : Solid cs) (n j : Nat) :
    nextContent (n + 1) (number 0 (spaces j ++ cs)) = number j cs := by
  have hdrop := dropWhile_number (fun c => c == ' ') (spaces j) cs
    (fun c hc => by simp [mem_spaces hc]) (fun c hc => by simp [(isSolid_iff.mp (h c hc)).1]) 0
  rw [columnAfter_spaces, Nat.zero_add] at hdrop
  have hdrop : (number 0 (spaces j ++ cs)).dropWhile (fun t => t.char == ' ') = number j cs := hdrop
  rw [nextContent, hdrop, skipComment_number h, breakAhead_solid h]
  rfl

/-- **The next line.** From the end of a line one goes to the content after the spaces of the next. -/
theorem nextLine_number {cs : List Char} (h : Solid cs) (k j : Nat) :
    nextLine (number k ('\n' :: (spaces j ++ cs))) = number j cs := by
  have hbreak : breakAhead (number k ('\n' :: (spaces j ++ cs))) = true := rfl
  rw [nextLine, if_pos hbreak]
  exact nextContent_number h _ j

theorem restOfLine?_break (k : Nat) (cs : List Char) :
    restOfLine? (number k ('\n' :: cs)) = some (number k ('\n' :: cs)) := by
  rw [number]
  simp [restOfLine?, skipSpaces, List.dropWhile]
  rfl

theorem onLine?_break (k : Nat) (cs : List Char) : onLine? (number k ('\n' :: cs)) = none := by
  rw [onLine?, restOfLine?_break]

/-- What stands below the end of a line is the solid text of the next line. -/
theorem belowLine_number {cs : List Char} (h : Solid cs) (k j : Nat) :
    belowLine (number k ('\n' :: (spaces j ++ cs))) = number j cs := by
  rw [belowLine, restOfLine?_break]
  exact nextLine_number h k j

/-- What is on the rest of a line begins after its space. -/
theorem onLine?_space {c : Char} {cs : List Char} (h : isSolid c = true) (k : Nat) :
    onLine? (number k (' ' :: c :: cs)) = some (number (k + 1) (c :: cs)) := by
  have hskip : skipSpaces (number k (' ' :: c :: cs)) = number (k + 1) (c :: cs) :=
    @skipSpaces_number (c :: cs) (fun d hd => by
      cases hd
      exact ⟨(isSolid_iff.mp h).1, (isSolid_iff.mp h).2.1⟩) k 1
  have hrest : restOfLine? (number k (' ' :: c :: cs)) = none := by
    have hlength : (number (k + 1) (c :: cs)).length < (number k (' ' :: c :: cs)).length := by simp
    have hsolid : Solid (c :: cs) := solid_cons h
    rw [restOfLine?, hskip, if_pos hlength, skipComment_number hsolid, breakAhead_solid hsolid]
    rfl
  rw [onLine?, hrest, hskip]

/-! ## The spots of a text -/

/-- A character that may stand in a document and ends no line. -/
def isLineChar (c : Char) : Bool := isPrintable c && !isBreak c

theorem isLineChar_iff {c : Char} : isLineChar c = true ↔ isPrintable c = true ∧ isBreak c = false := by
  simp [isLineChar]

/-- Where the printable characters are. -/
theorem toNat_of_isPrintable {c : Char} (h : isPrintable c = true) :
    c.toNat = 10 ∨ (32 ≤ c.toNat ∧ c.toNat ≤ 126) ∨ (160 ≤ c.toNat ∧ c.toNat ≠ 0xFEFF) := by
  simp only [isPrintable, Bool.or_eq_true, Bool.and_eq_true, beq_iff_eq, decide_eq_true_eq] at h
  rcases h with (rfl | ⟨hlow, hhigh⟩) | h
  · exact Or.inl rfl
  · exact Or.inr (Or.inl ⟨hlow, hhigh⟩)
  · exact Or.inr (Or.inr ⟨h.1.1.1, h.1.1.2⟩)

/-- Printable text has one kind of line end, so that there is nothing to unify. -/
theorem unifyBreaks_printable {cs : List Char} (h : ∀ c ∈ cs, isPrintable c = true) : unifyBreaks cs = cs := by
  induction cs with
  | nil => rfl
  | cons c rest ih =>
    have hc := toNat_of_isPrintable (h c List.mem_cons_self)
    have hreturn : c ≠ '\r' := by
      rintro rfl
      exact absurd hc (by decide)
    have hnext : c.toNat ≠ 0x85 := by omega
    rw [unifyBreaks, ih (fun d hd => h d (List.mem_cons_of_mem _ hd))]
    · simp [hreturn, hnext]
    · intro cs' heq _
      exact hreturn heq

/-- A text of printable characters has spots, which begin at its first column. -/
theorem spots?_printable {cs : List Char} (h : ∀ c ∈ cs, isPrintable c = true) :
    spots? cs = some (number 0 cs) := by
  have hmark : cs.head?.any (fun c => c.toNat == 0xFEFF) = false := by
    cases cs with
    | nil => rfl
    | cons c rest =>
      have := toNat_of_isPrintable (h c List.mem_cons_self)
      have : c.toNat ≠ 0xFEFF := by omega
      simpa using this
  have hreadable : cs.all isReadable = true := by
    refine List.all_eq_true.mpr fun c hc => ?_
    simp [isReadable, h c hc]
  simp [spots?, hmark, hreadable, unifyBreaks_printable h]

end Yaml
end TableSpec
