import Mathlib.Data.List.Nodup
import TableSpec.Database

/-!
# `Proofs.Database.Kept` — the columns that a table is created with

Of columns with the same name the first is kept. So every name is kept once, with its first definition, and the
columns that are kept stand in the order in which they stood.

## Contents
- `keepFirst_sublist`, `keepFirst_ne_nil`, `mem_keepFirst`, `mem_names_keepFirst`, `nodup_keepFirst`.
- `FirstOfEach`: what is kept, told by what it is. `firstOfEach_keepFirst`.
- `keepFirst_congr`, `keepFirst_eq_nil`, `keepFirst_append`, `exists_keepFirst_append`: one list of columns after another.
-/

namespace TableSpec
namespace Database

variable {seen : List String} {columns : List ServedColumn} {c : ServedColumn}

/-- Nothing is put in and nothing changes places. -/
theorem keepFirst_sublist (seen : List String) (columns : List ServedColumn) :
    (keepFirst seen columns).Sublist columns := by
  induction columns generalizing seen with
  | nil => exact .slnil
  | cons first rest ih =>
    rw [keepFirst]
    split
    · exact (ih seen).cons first
    · exact (ih (first.name :: seen)).cons_cons first

/-- The first column is always kept. -/
theorem keepFirst_ne_nil (h : columns ≠ []) : keepFirst [] columns ≠ [] := by
  obtain ⟨first, rest, rfl⟩ := List.exists_cons_of_ne_nil h
  rw [keepFirst, if_neg (by simp)]
  exact List.cons_ne_nil _ _

/-- A column is kept when it is the first one of its name, and the name has not been seen. -/
theorem mem_keepFirst :
    c ∈ keepFirst seen columns ↔ c.name ∉ seen ∧ columns.find? (fun d => d.name = c.name) = some c := by
  induction columns generalizing seen with
  | nil => simp [keepFirst]
  | cons first rest ih =>
    by_cases hname : first.name = c.name
    · rw [List.find?_cons_of_pos (by simpa using hname), keepFirst, hname]
      split
      · rename_i hseen
        have hmem : c.name ∈ seen := by simpa using hseen
        rw [ih]
        simp [hmem]
      · -- after this column its name has been seen
        rename_i hseen
        have hmem : c.name ∉ seen := by simpa using hseen
        rw [List.mem_cons, ih]
        simp [hmem, eq_comm]
    · rw [List.find?_cons_of_neg (by simpa using hname), keepFirst]
      have hne : c ≠ first := fun h => hname (h ▸ rfl)
      split
      · exact ih
      · rw [List.mem_cons, ih]
        simp [hne, Ne.symm hname]

/-- Every name is kept that has not been seen. -/
theorem mem_names_keepFirst {name : String} :
    name ∈ (keepFirst seen columns).map ServedColumn.name ↔
      name ∉ seen ∧ name ∈ columns.map ServedColumn.name := by
  constructor
  · intro h
    obtain ⟨c, hc, rfl⟩ := List.mem_map.mp h
    obtain ⟨hseen, hfirst⟩ := mem_keepFirst.mp hc
    exact ⟨hseen, List.mem_map_of_mem (List.mem_of_find?_eq_some hfirst)⟩
  · rintro ⟨hseen, hname⟩
    obtain ⟨d, hd, rfl⟩ := List.mem_map.mp hname
    cases hfirst : columns.find? (fun d' => d'.name = d.name) with
    | none => exact absurd (List.find?_eq_none.mp hfirst d hd) (by simp)
    | some c =>
      have hc : c.name = d.name := by simpa using List.find?_some hfirst
      rw [← hc] at hfirst hseen
      exact List.mem_map.mpr ⟨c, mem_keepFirst.mpr ⟨hseen, hfirst⟩, hc⟩

/-- No name is kept twice. -/
theorem nodup_keepFirst (seen : List String) (columns : List ServedColumn) :
    ((keepFirst seen columns).map ServedColumn.name).Nodup := by
  induction columns generalizing seen with
  | nil => exact List.nodup_nil
  | cons first rest ih =>
    rw [keepFirst]
    split
    · exact ih seen
    · rw [List.map_cons, List.nodup_cons]
      refine ⟨?_, ih (first.name :: seen)⟩
      rw [List.mem_map]
      rintro ⟨c, hc, hname⟩
      exact (mem_keepFirst.mp hc).1 (hname ▸ List.mem_cons_self)

/-- What is left of columns when the first one of every name is kept: some of them, in their order, with no name
    twice and no name missing, and under each name the column that comes first. -/
structure FirstOfEach (columns kept : List ServedColumn) : Prop where
  sublist : kept.Sublist columns
  nodup : (kept.map ServedColumn.name).Nodup
  complete : ∀ c ∈ columns, c.name ∈ kept.map ServedColumn.name
  first : ∀ c ∈ kept, columns.find? (fun d => d.name = c.name) = some c

theorem firstOfEach_keepFirst (columns : List ServedColumn) : FirstOfEach columns (keepFirst [] columns) where
  sublist := keepFirst_sublist [] columns
  nodup := nodup_keepFirst [] columns
  complete := fun _ hc => mem_names_keepFirst.mpr ⟨List.not_mem_nil, List.mem_map_of_mem hc⟩
  first := fun _ hc => (mem_keepFirst.mp hc).2

/-! ## One list after another -/

/-- Of the names that have been seen it only counts which they are. -/
theorem keepFirst_congr {seen' : List String} (h : ∀ name, name ∈ seen ↔ name ∈ seen')
    (columns : List ServedColumn) : keepFirst seen columns = keepFirst seen' columns := by
  induction columns generalizing seen seen' with
  | nil => rfl
  | cons first rest ih =>
    have hfirst : seen.contains first.name = seen'.contains first.name := by
      rw [Bool.eq_iff_iff, List.contains_iff_mem, List.contains_iff_mem]
      exact h first.name
    have hmore : ∀ name, name ∈ first.name :: seen ↔ name ∈ first.name :: seen' := by
      intro name
      rw [List.mem_cons, List.mem_cons, h]
    rw [keepFirst, keepFirst, hfirst, ih h, ih hmore]

/-- Where all names have been seen nothing is kept. -/
theorem keepFirst_eq_nil (h : ∀ c ∈ columns, c.name ∈ seen) : keepFirst seen columns = [] := by
  rw [List.eq_nil_iff_forall_not_mem]
  intro c hc
  exact (mem_keepFirst.mp hc).1 (h c ((keepFirst_sublist seen columns).mem hc))

/-- What is kept of the columns in front does not depend on those behind them, of which those are kept that have
    other names. -/
theorem keepFirst_append (seen : List String) (front back : List ServedColumn) :
    keepFirst seen (front ++ back) =
      keepFirst seen front ++ keepFirst (seen ++ front.map ServedColumn.name) back := by
  induction front generalizing seen with
  | nil => rw [List.map_nil, List.append_nil, List.nil_append, keepFirst, List.nil_append]
  | cons first rest ih =>
    rw [List.cons_append, keepFirst, keepFirst, List.map_cons]
    by_cases hseen : seen.contains first.name = true
    · rw [if_pos hseen, if_pos hseen, ih]
      congr 1
      -- a name that has been seen may as well be seen again
      have hmem : first.name ∈ seen := List.contains_iff_mem.mp hseen
      apply keepFirst_congr
      intro name
      simp only [List.mem_append, List.mem_cons]
      constructor
      · exact Or.imp_right Or.inr
      · rintro (h | rfl | h)
        · exact Or.inl h
        · exact Or.inl hmem
        · exact Or.inr h
    · rw [if_neg hseen, if_neg hseen, ih, List.cons_append]
      congr 2
      apply keepFirst_congr
      intro name
      simp only [List.mem_cons, List.mem_append]
      exact or_left_comm

/-- The columns in front are kept as they are without the others, which are only kept under other names. -/
theorem exists_keepFirst_append (front back : List ServedColumn) :
    ∃ more, keepFirst [] (front ++ back) = keepFirst [] front ++ more ∧
      ∀ c ∈ more, c.name ∉ front.map ServedColumn.name := by
  refine ⟨_, keepFirst_append [] front back, ?_⟩
  intro c hc
  exact (mem_keepFirst.mp hc).1

end Database
end TableSpec
