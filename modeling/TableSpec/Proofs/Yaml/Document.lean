import TableSpec.Proofs.Document.Record
import TableSpec.Proofs.Text.Hex
import TableSpec.Yaml.Tree

/-!
# `Proofs.Yaml.Document` — YAML trees as documents

A tree keeps a scalar without quotes as it was written, so the counts, truth values and the lack of a value
that a catalog has are spelled in its tree, and have to be read from their spelling. A text is never kept
like that.

## Contents
- `whole?_ofNat`, `count?_ofNat`: the spelling of a number is read as the number.
- The `LawfulDocument` instance.
- `Yaml.Canonical`: the trees that are built from values, and `Yaml.closed_canonical`.
-/

namespace TableSpec
namespace Yaml

/-! ## Numbers -/

/-- Going over digits with a step that takes in one digit gives the number that they spell. -/
theorem foldl_digits {step : Option Nat → Char → Option Nat}
    (hstep : ∀ n c, c.isDigit = true → step (some n) c = some (10 * n + Digits.value c)) {cs : List Char}
    (hdigits : ∀ c ∈ cs, c.isDigit = true) (acc : Nat) :
    cs.foldl step (some acc) = some (Digits.continued acc cs) := by
  induction cs generalizing acc with
  | nil => rfl
  | cons c rest ih =>
    obtain ⟨hc, hrest⟩ := List.forall_mem_cons.mp hdigits
    rw [List.foldl_cons, hstep acc c hc, ih hrest]
    rfl

theorem inBase?_digits {cs : List Char} (hne : cs ≠ []) (hdigits : ∀ c ∈ cs, c.isDigit = true) :
    inBase? 10 cs = some (Digits.toNat cs) := by
  have hempty : cs.isEmpty = false := by simpa using hne
  rw [inBase?, hempty]
  refine foldl_digits (fun n c hc => ?_) hdigits 0
  obtain ⟨hhex, hlt⟩ := hexDigit?_of_isDigit hc
  rw [Option.bind_some, hhex]
  simp [hlt, Nat.mul_comm]

theorem hasLeadingZero_ofNat (n : Nat) : hasLeadingZero (Digits.ofNat n) = false := by
  have hdigits := Digits.isDigit_of_mem_ofNat n
  have hzero := Digits.eq_zero_of_head?_ofNat n
  cases hcs : Digits.ofNat n with
  | nil => exact absurd hcs (Digits.ofNat_ne_nil n)
  | cons c rest =>
    rw [hcs] at hdigits hzero
    have hc : c.isDigit = true := hdigits c List.mem_cons_self
    have hsign : ¬(c = '-' ∨ c = '+') := by
      rintro (rfl | rfl)
      · exact absurd hc (by decide)
      · exact absurd hc (by decide)
    rw [hasLeadingZero, if_neg (by simpa using hsign)]
    split
    · rename_i d more heq
      -- a number that begins with a zero is zero, and has no more digits
      obtain ⟨rfl, rfl⟩ : c = '0' ∧ rest = d :: more := by simpa using heq
      have hn := hzero rfl
      rw [hn, Digits.ofNat_zero] at hcs
      exact absurd hcs (by simp)
    · rfl

theorem whole?_ofNat (n : Nat) : whole? (Digits.ofNat n) = some n := by
  have hdigits := Digits.isDigit_of_mem_ofNat n
  have hbase : inBase? 10 (Digits.ofNat n) = some n := by
    rw [inBase?_digits (Digits.ofNat_ne_nil n) hdigits, Digits.toNat_ofNat]
  unfold whole?
  split
  · rename_i more heq
    exact absurd (hdigits 'x' (by simp [heq])) (by decide)
  · rename_i more heq
    exact absurd (hdigits 'o' (by simp [heq])) (by decide)
  · rename_i more heq
    exact absurd (hdigits 'b' (by simp [heq])) (by decide)
  · rw [hasLeadingZero_ofNat]
    exact hbase

theorem dropPlus_ofNat (n : Nat) : dropPlus (Digits.ofNat n) = Digits.ofNat n :=
  if_neg (Digits.head?_ofNat_ne (by decide) n)

/-- **A count is read from its spelling.** -/
theorem count?_ofNat {n : Nat} (hn : n < UInt64.size) : count? (String.ofList (Digits.ofNat n)) = some n := by
  rw [count?, String.toList_ofList, dropPlus_ofNat, whole?_ofNat]
  exact if_pos hn

theorem isInteger_ofNat {n : Nat} (hn : n < UInt64.size) :
    isInteger (String.ofList (Digits.ofNat n)) = true := by
  unfold isInteger
  rw [String.toList_ofList]
  split
  · rename_i cs heq
    exact absurd (congrArg List.head? heq) (Digits.head?_ofNat_ne (by decide) n)
  · rw [dropPlus_ofNat, whole?_ofNat]
    have : n < UInt64.size * UInt64.size := Nat.lt_of_lt_of_le hn (by decide)
    simpa using this

theorem lt_of_count?_eq_some {s : String} {n : Nat} (h : count? s = some n) : n < UInt64.size := by
  unfold count? at h
  split at h
  · split at h
    · rename_i hlt
      exact Option.some.inj h ▸ hlt
    · exact absurd h (by simp)
  · exact absurd h (by simp)

/-! ## Entries -/

theorem readEntries_mapping (es : List (String × Yaml)) :
    readEntries (mapping (es.map (fun e => (text e.1, e.2)))) = .ok es := by
  rw [readEntries]
  induction es with
  | nil => rfl
  | cons e rest ih =>
    rw [List.map_cons, List.mapM_cons, ih]
    rfl

instance : LawfulDocument Yaml where
  text_ofText _ := rfl
  flag_ofFlag b := by cases b <;> rfl
  count_ofCount {n} hn := by
    show (match count? (String.ofList (Digits.ofNat n)) with
      | some n => Except.ok n
      | none => Except.error Error.yaml) = _
    rw [count?_ofNat hn]
  lt_of_count {d n} h := by
    cases d with
    | plain s =>
      have hcount : (match count? s with
        | some n => Except.ok n
        | none => Except.error Error.yaml) = Except.ok n := h
      split at hcount
      · rename_i m hm
        cases hcount
        exact lt_of_count?_eq_some hm
      · exact absurd hcount (by simp)
    | text _ | sequence _ | mapping _ => exact absurd (show Except.error Error.yaml = Except.ok n from h) (by simp)
  scalar_ofScalar v := by
    cases v with
    | bool b => cases b <;> rfl
    | text _ | null => rfl
  isNull_ofEntries _ := rfl
  items_ofItems _ := rfl
  entries_ofEntries := readEntries_mapping
  fields_ofEntries _ := readEntries_mapping

/-! ## Trees of values -/

/-- The trees that are built from values: keys are texts, and without quotes there are only truth values,
    counts and the lack of a value. -/
inductive Canonical : Yaml → Prop where
  | text (s : String) : Canonical (text s)
  | flag (b : Bool) : Canonical (plain (if b then "true" else "false"))
  | null : Canonical (plain "null")
  | count {n : Nat} : n < UInt64.size → Canonical (plain (String.ofList (Digits.ofNat n)))
  | sequence {items : List Yaml} : (∀ d ∈ items, Canonical d) → Canonical (sequence items)
  | mapping {entries : List (String × Yaml)} : (∀ e ∈ entries, Canonical e.2) →
      Canonical (mapping (entries.map (fun e => (.text e.1, e.2))))

theorem closed_canonical : Document.Closed Canonical where
  text := Canonical.text
  flag := Canonical.flag
  null := Canonical.null
  count := Canonical.count
  items := Canonical.sequence
  entries := Canonical.mapping

end Yaml
end TableSpec
