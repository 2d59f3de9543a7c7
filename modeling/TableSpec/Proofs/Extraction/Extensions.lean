import TableSpec.Proofs.Extraction.Meaning

/-!
# `Proofs.Extraction.Extensions` — the extensions of an extracted table

An extension names its platforms and is registered under each of them, where a later one may take its place. So
what a table has under a platform is an extension that names this platform, whatever else it names.

## Contents
- `Table.acceptable_of_ofNode`, `declares_of_ofNode`: an extracted table is the one that its declarations stand for.
- `Table.Registered`, `registered_of_ofNode`, `registered_of_ofSource`.
-/

namespace TableSpec
namespace Table

variable {name origin text : String} {node : Node} {t : Table}

/-- Only acceptable declarations make a table. -/
theorem acceptable_of_ofNode (h : ofNode name node = .ok t) : Acceptable (declarations node) := by
  have hfold : (declarations node).foldlM apply { name := name } = .ok t := h
  rcases acceptable_or_fault name (declarations node) with hds | ⟨before, d, rest, e, hds, hbefore, hd⟩
  · exact hds
  · rw [hds, error_of_fault hbefore hd] at hfold
    cases hfold

/-- An extracted table is the one that its declarations stand for. -/
theorem declares_of_ofNode (h : ofNode name node = .ok t) : Declares name (declarations node) t := by
  obtain ⟨t', hfold, ht'⟩ := declares_of_acceptable name (acceptable_of_ofNode h)
  have heq : ofNode name node = .ok t' := hfold
  rw [h] at heq
  cases heq
  exact ht'

/-- The extensions of a table are registered for platforms that they name. -/
def Registered (t : Table) : Prop :=
  ∀ platform s, t.extendedSchemas.get? platform = some s → platform ∈ s.platforms

/-- The extension under a platform is the last one that names it, so it does name it. -/
theorem Declares.registered {ds : List Declaration} (h : Declares name ds t) : t.Registered := by
  intro platform s hget
  rw [h.extendedSchemas_eq] at hget
  simpa using (List.mem_filter.mp (List.mem_of_getLast? hget)).2

theorem registered_of_ofNode (h : ofNode name node = .ok t) : t.Registered := (declares_of_ofNode h).registered

theorem registered_of_ofSource (h : ofSource name origin text = .ok t) : t.Registered := by
  obtain ⟨node, -, hnode⟩ := bind_eq_ok.mp h
  exact registered_of_ofNode hnode

end Table
end TableSpec
