import TableSpec.Text.Hex

/-!
# `Proofs.Text.Hex` — hexadecimal digits read back

Escapes write a character as a fixed number of hexadecimal digits. The readers of such digits are shared by
all formats that have escapes of this kind.

## Contents
- `hexDigit?_of_isDigit`: decimal digits are digits here.
- `forall_mem_hexDigits`: what holds of all digits holds of the digits of a number.
- `hexNumber?_hexDigits`: the digits of a number are read as that number.
- `hexNumber?_map_toUpper`: digits in lower case are read as those in upper case.
- `hexChar?_digits`, `hexChar?_hexDigits`: the digits of a character, with text behind them, are read as that
  character.
-/

namespace TableSpec

/-- A decimal digit is worth the same in hexadecimal. -/
theorem hexDigit?_of_isDigit {c : Char} (h : c.isDigit = true) :
    hexDigit? c = some (Digits.value c) ∧ Digits.value c < 10 := by
  obtain ⟨hlow, hhigh⟩ : 48 ≤ c.val ∧ c.val ≤ 57 := by
    simpa [Char.isDigit] using h
  refine ⟨if_pos ⟨hlow, hhigh⟩, ?_⟩
  have : c.toNat ≤ '9'.toNat := hhigh
  have h9 : '9'.toNat = 57 := rfl
  have h0 : '0'.toNat = 48 := rfl
  simp only [Digits.value]
  omega

theorem hexDigit?_hexDigitChar : ∀ n, n < 16 → hexDigit? (hexDigitChar n) = some n := by decide

/-- Digits are read part by part, the second part behind the number of the first. -/
theorem hexNumber?_append {count : Nat} {xs : List Char} (hxs : xs.length = count) (more acc : Nat)
    (ys : List Char) :
    hexNumber? (count + more) acc (xs ++ ys) = (hexNumber? count acc xs).bind (fun n => hexNumber? more n ys) := by
  induction count generalizing xs acc with
  | zero =>
    rw [List.length_eq_zero_iff.mp hxs, Nat.zero_add]
    rfl
  | succ count ih =>
    obtain ⟨c, rest, rfl⟩ := List.exists_cons_of_length_eq_add_one hxs
    rw [Nat.succ_add, List.cons_append, hexNumber?, hexNumber?]
    cases hexDigit? c with
    | none => rfl
    | some d => exact ih (by simpa using hxs) _

theorem length_hexDigits (count n : Nat) : (hexDigits count n).length = count := by
  induction count generalizing n with
  | zero => rfl
  | succ count ih => rw [hexDigits, List.length_append, ih, List.length_singleton]

/-- What holds of all digits holds of those of a number. -/
theorem forall_mem_hexDigits {P : Char → Prop} (hP : ∀ n, n < 16 → P (hexDigitChar n)) (count n : Nat) :
    ∀ c ∈ hexDigits count n, P c := by
  induction count generalizing n with
  | zero => simp [hexDigits]
  | succ count ih =>
    intro c hc
    rw [hexDigits] at hc
    rcases List.mem_append.mp hc with hc | hc
    · exact ih (n / 16) c hc
    · rw [List.mem_singleton.mp hc]
      exact hP (n % 16) (Nat.mod_lt n (by decide))

/-- Hexadecimal digits are read as the number that they were made from. -/
theorem hexNumber?_hexDigits (count : Nat) : ∀ n acc, n < Nat.pow 16 count →
    hexNumber? count acc (hexDigits count n) = some (acc * Nat.pow 16 count + n) := by
  induction count with
  | zero =>
    intro n acc hn
    have : n = 0 := by simpa using hn
    simp [this, hexNumber?]
  | succ count ih =>
    intro n acc hn
    have hn : n < Nat.pow 16 count * 16 := hn
    have hhigh : n / 16 < Nat.pow 16 count := Nat.div_lt_of_lt_mul (by rwa [Nat.mul_comm] at hn)
    have hlow : n % 16 < 16 := Nat.mod_lt n (by decide)
    have hlast : ∀ m, hexNumber? 1 m [hexDigitChar (n % 16)] = some (16 * m + n % 16) := by
      intro m
      rw [hexNumber?, hexDigit?_hexDigitChar _ hlow]
      rfl
    rw [hexDigits, hexNumber?_append (length_hexDigits count _), ih _ _ hhigh, Option.bind_some, hlast]
    -- the digits so far are worth sixteen times as much with one more digit behind them
    show _ = some (acc * (Nat.pow 16 count * 16) + n)
    have hdivide := Nat.div_add_mod n 16
    have hscale : acc * (Nat.pow 16 count * 16) = 16 * acc * Nat.pow 16 count := by
      rw [Nat.mul_comm (Nat.pow 16 count), ← Nat.mul_assoc, Nat.mul_comm acc]
    rw [hscale, Nat.mul_add, ← Nat.mul_assoc]
    congr 1
    omega

/-- All characters have a code that fits into eight digits. -/
theorem toNat_lt_pow (c : Char) : c.toNat < Nat.pow 16 8 := by
  have hmax : c.toNat < 0x110000 := by
    rcases c.valid with h | h
    · exact Nat.lt_trans h (by decide)
    · exact h.2
  exact Nat.lt_trans hmax (by decide)

/-! ## Lower case -/

theorem hexDigit?_upper : ∀ n, n < 26 →
    hexDigit? (Char.ofNat (97 + n)).toUpper = hexDigit? (Char.ofNat (97 + n)) := by
  decide

/-- A digit in upper case is worth the same. -/
theorem hexDigit?_toUpper (c : Char) : hexDigit? c.toUpper = hexDigit? c := by
  by_cases hlower : 97 ≤ c.toNat ∧ c.toNat ≤ 122
  · have hletter := hexDigit?_upper (c.toNat - 97) (by omega)
    rwa [Nat.add_sub_cancel' hlower.1, Char.ofNat_toNat] at hletter
  · -- all other characters stay as they are
    have hsame : c.toUpper = c := by
      unfold Char.toUpper
      rw [dif_neg]
      intro hcode
      exact hlower ⟨UInt32.le_iff_toNat_le.mp hcode.1, UInt32.le_iff_toNat_le.mp hcode.2⟩
    rw [hsame]

theorem hexNumber?_map_toUpper (count acc : Nat) (cs : List Char) :
    hexNumber? count acc (cs.map Char.toUpper) = hexNumber? count acc cs := by
  induction count generalizing acc cs with
  | zero => rfl
  | succ count ih =>
    cases cs with
    | nil => rfl
    | cons c rest =>
      rw [List.map_cons, hexNumber?, hexNumber?, hexDigit?_toUpper]
      congr 1
      funext d
      exact ih _ rest

/-! ## Characters -/

/-- The digits of a character stand for it, in whichever case they are, whatever follows them. -/
theorem hexChar?_digits {count : Nat} {c : Char} {digits : List Char} (hc : c.toNat < Nat.pow 16 count)
    (hdigits : digits.map Char.toUpper = hexDigits count c.toNat) (cs : List Char) :
    hexChar? count (digits ++ cs) = some c := by
  have hlength : digits.length = count := by
    rw [← List.length_map Char.toUpper, hdigits, length_hexDigits]
  have hnumber : hexNumber? count 0 (digits ++ cs) = some c.toNat := by
    have happend := hexNumber?_append hlength 0 0 cs
    rw [Nat.add_zero, ← hexNumber?_map_toUpper count 0 digits, hdigits, hexNumber?_hexDigits count _ 0 hc,
      Nat.zero_mul, Nat.zero_add] at happend
    exact happend
  rw [hexChar?, hnumber, Option.bind_some, charOfCode?_toNat]

theorem map_toUpper_hexDigits (count n : Nat) : (hexDigits count n).map Char.toUpper = hexDigits count n := by
  have hupper : ∀ n, n < 16 → (hexDigitChar n).toUpper = hexDigitChar n := by decide
  rw [List.map_congr_left (g := id) (forall_mem_hexDigits hupper count n), List.map_id]

theorem hexChar?_hexDigits {count : Nat} {c : Char} (hc : c.toNat < Nat.pow 16 count) (cs : List Char) :
    hexChar? count (hexDigits count c.toNat ++ cs) = some c :=
  hexChar?_digits hc (map_toUpper_hexDigits count c.toNat) cs

end TableSpec
