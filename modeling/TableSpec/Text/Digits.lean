/-!
# `TableSpec.Text.Digits` — decimal digits

## Contents
- `Digits.ofNat`: the decimal digits of a number, without leading zeros.
- `Digits.toNat`: the number that digits spell. `toNat_ofNat`: one inverts the other.
- `eq_zero_of_head?_ofNat`: only zero begins with a zero.
-/

namespace TableSpec
namespace Digits

/-- The digit of a number below ten. -/
def digit (n : Nat) : Char := Char.ofNat ('0'.toNat + n)

/-- The number that a digit stands for. -/
def value (c : Char) : Nat := c.toNat - '0'.toNat

/-- The decimal digits of a number, most significant first. -/
def ofNat (n : Nat) : List Char :=
  if n < 10 then [digit n] else ofNat (n / 10) ++ [digit (n % 10)]
  termination_by n
  decreasing_by omega

/-- The number that digits spell after those that spell `acc`. -/
def continued (acc : Nat) (digits : List Char) : Nat :=
  digits.foldl (fun n c => 10 * n + value c) acc

/-- The number that digits spell. -/
def toNat (digits : List Char) : Nat := continued 0 digits

theorem value_digit : ∀ n, n < 10 → value (digit n) = n := by decide

theorem isDigit_digit : ∀ n, n < 10 → (digit n).isDigit = true := by decide

theorem toNat_ofNat (n : Nat) : toNat (ofNat n) = n := by
  induction n using Nat.strongRecOn with
  | ind n ih =>
    rw [ofNat]
    split
    · rename_i h
      simp [toNat, continued, value_digit n h]
    · rename_i h
      have hq := ih (n / 10) (by omega)
      simp only [toNat, continued] at hq
      simp only [toNat, continued, List.foldl_append, List.foldl_cons, List.foldl_nil, hq]
      rw [value_digit (n % 10) (by omega)]
      omega

theorem isDigit_of_mem_ofNat (n : Nat) : ∀ c ∈ ofNat n, c.isDigit = true := by
  induction n using Nat.strongRecOn with
  | ind n ih =>
    intro c hc
    rw [ofNat] at hc
    split at hc
    · rename_i h
      rw [List.mem_singleton.mp hc]
      exact isDigit_digit n h
    · rcases List.mem_append.mp hc with hc | hc
      · exact ih (n / 10) (by omega) c hc
      · rw [List.mem_singleton.mp hc]
        exact isDigit_digit (n % 10) (by omega)

theorem ofNat_ne_nil (n : Nat) : ofNat n ≠ [] := by
  rw [ofNat]
  split <;> simp

/-- There are no leading zeros. -/
theorem eq_zero_of_head?_ofNat (n : Nat) : (ofNat n).head? = some '0' → n = 0 := by
  induction n using Nat.strongRecOn with
  | ind n ih =>
    intro h
    rw [ofNat] at h
    split at h
    · rename_i hn
      have hdigit : ∀ m, m < 10 → digit m = '0' → m = 0 := by decide
      exact hdigit n hn (Option.some.inj h)
    · rename_i hn
      rw [List.head?_append, Option.or_of_isSome (by simp [ofNat_ne_nil])] at h
      have := ih (n / 10) (by omega) h
      omega

theorem ne_of_isDigit {c d : Char} (hc : c.isDigit = true) (hd : d.isDigit = false) : c ≠ d := by
  rintro rfl
  rw [hc] at hd
  exact absurd hd (by simp)

theorem head?_ofNat_ne {c : Char} (hc : c.isDigit = false) (n : Nat) : (ofNat n).head? ≠ some c := by
  intro h
  exact ne_of_isDigit (isDigit_of_mem_ofNat n c (List.mem_of_mem_head? h)) hc rfl

theorem ofNat_zero : ofNat 0 = ['0'] := by
  rw [ofNat]
  rfl

end Digits
end TableSpec
