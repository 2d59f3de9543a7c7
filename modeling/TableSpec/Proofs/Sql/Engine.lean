import Mathlib.Data.List.Nodup
import TableSpec.Proofs.Result
import TableSpec.Proofs.Sql.Statement
import TableSpec.Sql.Engine

/-!
# `Proofs.Sql.Engine` — tables that the engine takes

The engine takes a table whose name is free and new and whose columns it can tell apart, and no others. It takes
several tables, one after the other, just when each of them is all right by itself and their names are told apart.

## Contents
- `hasClash_eq_false_iff`, `relation?_eq_none_iff`, `relation?_of_mem`: names without regard to case.
- `Relation.IsCreatable`, `create_eq_ok`: one table. `createEach_eq_ok`: several.
- `query_rowCount`, `query_allColumns`: what is answered for a table that is there.
-/

namespace TableSpec
namespace Sql

/-! ## Names without regard to case -/

theorem hasClash_eq_false_iff {names : List String} : hasClash names = false ↔ (names.map fold).Nodup := by
  induction names with
  | nil => simp [hasClash]
  | cons name rest ih =>
    rw [hasClash, Bool.or_eq_false_iff, List.map_cons, List.nodup_cons, ih, List.any_eq_false, List.mem_map]
    simp

namespace Engine

variable {e e' : Engine} {name : String} {columns : List ColumnDef} {r : Relation} {rs : List Relation}

theorem relation?_eq_none_iff : e.relation? name = none ↔ fold name ∉ e.relations.map (fun r => fold r.name) := by
  unfold relation?
  rw [List.find?_eq_none, List.mem_map]
  simp

/-- Where no two tables have one name, every table is found under its own. -/
theorem relation?_of_mem (h : (e.relations.map (fun r => fold r.name)).Nodup) (hr : r ∈ e.relations) :
    e.relation? r.name = some r := by
  unfold relation?
  cases hfind : e.relations.find? (fun r' => fold r'.name = fold r.name) with
  | none => exact absurd (List.find?_eq_none.mp hfind r hr) (by simp)
  | some r' =>
    have hname : fold r'.name = fold r.name := by simpa using List.find?_some hfind
    rw [List.inj_on_of_nodup_map h (List.mem_of_find?_eq_some hfind) hr hname]

end Engine

/-! ## Creation -/

/-- Whether a table is taken when there is no other. -/
structure Relation.IsCreatable (r : Relation) : Prop where
  isFreeName : isFreeName r.name = true
  nodup : ((r.columns.map ColumnDef.name).map fold).Nodup
  length_le : r.columns.length ≤ maxColumns

namespace Engine

variable {e e' : Engine} {name : String} {columns : List ColumnDef} {r : Relation} {rs : List Relation}

/-- A table is taken when it is all right by itself and its name is new. -/
theorem create_eq_ok : e.create r.name r.columns = .ok e' ↔
    r.IsCreatable ∧ fold r.name ∉ e.relations.map (fun r => fold r.name) ∧ e' = ⟨e.relations ++ [r]⟩ := by
  unfold create
  rw [← relation?_eq_none_iff]
  constructor
  · intro h
    split at h
    · rename_i hgood
      simp only [Bool.and_eq_true, Bool.not_eq_true', Option.isNone_iff_eq_none, decide_eq_true_eq] at hgood
      obtain ⟨⟨⟨hfree, hnew⟩, hclash⟩, hlength⟩ := hgood
      cases h
      exact ⟨⟨hfree, hasClash_eq_false_iff.mp hclash, hlength⟩, hnew, rfl⟩
    · cases h
  · rintro ⟨⟨hfree, hnodup, hlength⟩, hnew, rfl⟩
    rw [if_pos]
    simp [hfree, hnew, hasClash_eq_false_iff.mpr hnodup, hlength]

/-- **Several tables are taken when each of them is all right by itself and their names are told apart.** -/
theorem createEach_eq_ok (h : (e.relations.map (fun r => fold r.name)).Nodup) :
    rs.foldlM (fun e r => e.create r.name r.columns) e = .ok e' ↔
      (∀ r ∈ rs, r.IsCreatable) ∧ ((e.relations ++ rs).map (fun r => fold r.name)).Nodup ∧
        e' = ⟨e.relations ++ rs⟩ := by
  induction rs generalizing e with
  | nil =>
    rw [List.foldlM_nil, List.append_nil]
    simp [h, pure, Except.pure, eq_comm]
  | cons r rest ih =>
    have hsplit : (e.relations ++ r :: rest) = (e.relations ++ [r]) ++ rest := by simp
    have hnodup : ((e.relations ++ [r]).map (fun r => fold r.name)).Nodup ↔
        fold r.name ∉ e.relations.map (fun r => fold r.name) := by
      rw [List.map_append, List.map_singleton, List.nodup_append]
      simp [h]
    rw [List.foldlM_cons, hsplit]
    refine bind_eq_ok.trans ?_
    constructor
    · rintro ⟨e'', hcreate, hrest⟩
      obtain ⟨hr, hnew, rfl⟩ := create_eq_ok.mp hcreate
      obtain ⟨hgood, hnames, he'⟩ := (ih (hnodup.mpr hnew)).mp hrest
      exact ⟨List.forall_mem_cons.mpr ⟨hr, hgood⟩, hnames, he'⟩
    · rintro ⟨hgood, hnames, he'⟩
      obtain ⟨hr, hgood⟩ := List.forall_mem_cons.mp hgood
      have hfirst : ((e.relations ++ [r]).map (fun r => fold r.name)).Nodup := by
        rw [List.map_append] at hnames
        exact hnames.of_append_left
      exact ⟨_, create_eq_ok.mpr ⟨hr, hnodup.mp hfirst, rfl⟩, (ih hfirst).mpr ⟨hgood, hnames, he'⟩⟩

/-! ## Answers -/

theorem query_rowCount (hname : Sound name.toList) (hr : e.relation? name = some r) :
    e.query (Statement.rowCount name).text = .ok ⟨["n"], [[.integer 0]]⟩ := by
  rw [query, ofText?_rowCount hname]
  show (orStorage (e.relation? name)).bind _ = _
  rw [hr]
  rfl

theorem query_allColumns (hname : Sound name.toList) (hr : e.relation? name = some r) :
    e.query (Statement.allColumns name).text = .ok ⟨r.columns.map ColumnDef.name, []⟩ := by
  rw [query, ofText?_allColumns hname]
  show (orStorage (e.relation? name)).bind _ = _
  rw [hr]
  rfl

end Engine
end Sql
end TableSpec
