import Mathlib.Data.List.Nodup
import TableSpec.Platform

/-!
# `Proofs.Platform` — the fixed tables

No fixed table has two entries for one key, so that looking a key up is finding its entry.

## Contents
- `Platform.entry_eq_ok_iff_mem`, and for the tables `describe_eq_ok`, `directoriesFor_eq_ok`, `ofCategory_eq_ok`.
- `ofCategory_of_unlisted`, `ne_nil_of_mem_categories`.
-/

namespace TableSpec
namespace Platform

variable {α : Type} {title key : String} {table : List (String × α)} {value : α}

/-- What is looked up is an entry; where keys do not repeat every entry is looked up. -/
theorem entry_eq_ok_iff_mem (h : (table.map Prod.fst).Nodup) :
    entry title table key = .ok value ↔ (key, value) ∈ table := by
  rw [entry_eq_ok, List.lookup_eq_some_iff]
  constructor
  · rintro ⟨before, after, rfl, -⟩
    simp
  · intro hmem
    obtain ⟨before, after, rfl⟩ := List.append_of_mem hmem
    refine ⟨before, after, rfl, ?_⟩
    intro e he
    rw [bne_iff_ne]
    rintro rfl
    -- an entry before this one would repeat the key
    rw [List.map_append, List.map_cons] at h
    exact List.disjoint_of_nodup_append h (List.mem_map_of_mem he) List.mem_cons_self

theorem describe_eq_ok {directory description : String} :
    describe directory = .ok description ↔ (directory, description) ∈ directories :=
  entry_eq_ok_iff_mem (by decide)

theorem directoriesFor_eq_ok {system : String} {row : List String} :
    directoriesFor system = .ok row ↔ (system, row) ∈ operatingSystems :=
  entry_eq_ok_iff_mem (by decide)

theorem ofCategory_eq_ok {category : String} {platforms : List String} :
    ofCategory category = .ok platforms ↔ (category, platforms) ∈ categories :=
  entry_eq_ok_iff_mem (by decide)

theorem ofCategory_of_unlisted {category : String} (h : category ∉ categories.map Prod.fst) :
    ofCategory category = .error (.lookup category "table categories") := by
  refine entry_eq_error.mpr ⟨List.lookup_eq_none_iff.mpr ?_, rfl⟩
  intro row hrow
  rw [bne_iff_ne]
  rintro rfl
  exact h (List.mem_map_of_mem hrow)

theorem ne_nil_of_mem_categories : ∀ row ∈ categories, row.2 ≠ [] := by decide

end Platform
end TableSpec
