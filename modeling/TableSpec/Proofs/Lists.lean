import Mathlib.Data.List.Induction
import Mathlib.Data.List.Nodup

/-!
# `Proofs.Lists` — what comes first in a list, and what comes again

Much is decided by the first element of its kind: the first column whose type is not known, the first operand that
calls no category. And names of platforms may come again, in a list of platforms that someone asks for or in
categories that overlap; then the first mention counts.

## Contents
- `forall_or_first`: either all elements are of a kind, or there is a first one that is not.
- `eraseDups_concat_of_mem`, `eraseDups_concat_of_not_mem`: one more element. `nodup_eraseDups`.
- `flatMap_eraseDups`: blocks that come again, for readers that have nothing to take from such a block.
-/

namespace TableSpec

theorem forall_or_first {α : Type} (P : α → Prop) (as : List α) :
    (∀ a ∈ as, P a) ∨ ∃ before a after, as = before ++ a :: after ∧ (∀ b ∈ before, P b) ∧ ¬P a := by
  induction as with
  | nil => exact Or.inl (fun a ha => absurd ha List.not_mem_nil)
  | cons first rest ih =>
    by_cases hfirst : P first
    · rcases ih with hrest | ⟨before, a, after, rfl, hbefore, ha⟩
      · exact Or.inl (List.forall_mem_cons.mpr ⟨hfirst, hrest⟩)
      · exact Or.inr ⟨first :: before, a, after, rfl, List.forall_mem_cons.mpr ⟨hfirst, hbefore⟩, ha⟩
    · exact Or.inr ⟨[], first, rest, rfl, by simp, hfirst⟩

/-! ## Elements that come again -/

variable {α β γ : Type} [BEq α] [LawfulBEq α] {as : List α} {a : α}

theorem eraseDups_concat_of_mem (h : a ∈ as) : (as ++ [a]).eraseDups = as.eraseDups := by
  have hremoved : [a].removeAll as = [] := by simp [List.removeAll, h]
  rw [List.eraseDups_append, hremoved, List.eraseDups_nil, List.append_nil]

theorem eraseDups_concat_of_not_mem (h : a ∉ as) : (as ++ [a]).eraseDups = as.eraseDups ++ [a] := by
  have hleft : [a].removeAll as = [a] := by simp [List.removeAll, h]
  rw [List.eraseDups_append, hleft, List.eraseDups_cons, List.filter_nil, List.eraseDups_nil]

theorem nodup_eraseDups (as : List α) : as.eraseDups.Nodup := by
  induction as using List.reverseRecOn with
  | nil => exact List.nodup_nil
  | append_singleton before a ih =>
    by_cases ha : a ∈ before
    · rwa [eraseDups_concat_of_mem ha]
    · rw [eraseDups_concat_of_not_mem ha, ← List.concat_eq_append]
      exact ih.concat (fun h => ha (List.mem_eraseDups.mp h))

/-- What is read off a list may go on from what has been read, and from the members so far, when a further list is
    put behind it; and it may stay as it is when all members of the further list are there already. If so, a list
    that is put together of blocks may leave out blocks that have come before. -/
theorem flatMap_eraseDups {f : List β → γ}
    (hcongr : ∀ xs ys zs : List β, f xs = f ys → (∀ x, x ∈ xs ↔ x ∈ ys) → f (xs ++ zs) = f (ys ++ zs))
    (habsorb : ∀ xs zs : List β, (∀ z ∈ zs, z ∈ xs) → f (xs ++ zs) = f xs)
    (start : List β) (block : α → List β) (as : List α) :
    f (start ++ as.eraseDups.flatMap block) = f (start ++ as.flatMap block) := by
  induction as using List.reverseRecOn with
  | nil => rw [List.eraseDups_nil]
  | append_singleton before a ih =>
    have hmem : ∀ x, x ∈ start ++ before.eraseDups.flatMap block ↔ x ∈ start ++ before.flatMap block := by
      intro x
      simp only [List.mem_append, List.mem_flatMap, List.mem_eraseDups]
    rw [List.flatMap_append, List.flatMap_singleton, ← List.append_assoc]
    by_cases ha : a ∈ before
    · rw [eraseDups_concat_of_mem ha, ih]
      symm
      apply habsorb
      intro z hz
      exact List.mem_append_right start (List.mem_flatMap.mpr ⟨a, ha, hz⟩)
    · rw [eraseDups_concat_of_not_mem ha, List.flatMap_append, List.flatMap_singleton, ← List.append_assoc]
      exact hcongr _ _ (block a) ih hmem

end TableSpec
