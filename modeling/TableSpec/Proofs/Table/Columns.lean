import TableSpec.Proofs.Result
import TableSpec.Table

/-!
# `Proofs.Table.Columns` — the columns that the engine gets

A table is served with the columns of its base schema and of some of its extensions, each with the type that its
word stands for. A word that stands for no type is the only thing that can go wrong, and of several such words
the first one is reported.

## Contents
- `Column.served_eq_ok`, `Column.served_eq_error`: one column. `served_of_mem`, `exists_of_served_error`.
- `firstUnknown?`: the column that is reported. `mapM_served_of_unknown`, `mapM_served_eq_map`,
  `mapM_served_of_known`, `names_of_mapM_served`.
- `Table.columnsOn`: the columns for one platform.
-/

namespace TableSpec

/-! ## One column -/

theorem Column.served_eq_ok {table : String} {c : Column} {d : ServedColumn} :
    c.served table = .ok d ↔ ∃ t, EngineType.ofWord? c.typeName = some t ∧ d = ⟨c.name, table, t, true⟩ := by
  unfold Column.served
  cases EngineType.ofWord? c.typeName with
  | none => simp
  | some t => simp [eq_comm]

theorem Column.served_eq_error {table : String} {c : Column} {e : Error} :
    c.served table = .error e ↔
      EngineType.ofWord? c.typeName = none ∧ e = .unknownColumnType c.name c.typeName := by
  unfold Column.served
  cases EngineType.ofWord? c.typeName with
  | none => simp [eq_comm]
  | some t => simp

/-- The columns that a table is served with belong to it, and may all be empty. -/
theorem served_of_mem {table : String} {columns : List Column} {served : List ServedColumn}
    (h : columns.mapM (Column.served table) = .ok served) :
    ∀ d ∈ served, d.source = table ∧ d.nullable = true := by
  induction columns generalizing served with
  | nil =>
    cases h
    simp
  | cons c rest ih =>
    rw [List.mapM_cons] at h
    obtain ⟨d, hd, h⟩ := bind_eq_ok.mp h
    obtain ⟨ds, hds, h⟩ := bind_eq_ok.mp h
    cases h
    obtain ⟨t, -, rfl⟩ := Column.served_eq_ok.mp hd
    intro d' hd'
    rcases List.mem_cons.mp hd' with rfl | hd'
    · exact ⟨rfl, rfl⟩
    · exact ih hds d' hd'

/-- Columns cannot be served when one of them has a type that the engine does not know. -/
theorem exists_of_served_error {table : String} {columns : List Column} {e : Error}
    (h : columns.mapM (Column.served table) = .error e) :
    ∃ c ∈ columns, EngineType.ofWord? c.typeName = none ∧ e = .unknownColumnType c.name c.typeName := by
  induction columns with
  | nil => cases h
  | cons c rest ih =>
    rw [List.mapM_cons] at h
    rcases bind_eq_error.mp h with h | ⟨d, -, h⟩
    · exact ⟨c, List.mem_cons_self, Column.served_eq_error.mp h⟩
    · rcases bind_eq_error.mp h with h | ⟨ds, -, h⟩
      · obtain ⟨c', hc', h'⟩ := ih h
        exact ⟨c', List.mem_cons_of_mem c hc', h'⟩
      · cases h

/-! ## The first unknown type -/

/-- The first column whose type the engine does not know. -/
def firstUnknown? (columns : List Column) : Option Column :=
  columns.find? (fun c => (EngineType.ofWord? c.typeName).isNone)

/-- The first column of unknown type is reported, whatever comes after it. -/
theorem mapM_served_of_unknown {table : String} {columns : List Column} {c : Column}
    (h : firstUnknown? columns = some c) :
    columns.mapM (Column.served table) = .error (.unknownColumnType c.name c.typeName) := by
  induction columns with
  | nil => cases h
  | cons first rest ih =>
    unfold firstUnknown? at h
    rw [List.mapM_cons]
    cases hword : EngineType.ofWord? first.typeName with
    | none =>
      rw [List.find?_cons_of_pos (by simp [hword])] at h
      cases h
      rw [Column.served_eq_error.mpr ⟨hword, rfl⟩]
      rfl
    | some t =>
      rw [List.find?_cons_of_neg (by simp [hword])] at h
      rw [Column.served_eq_ok.mpr ⟨t, hword, rfl⟩]
      show Except.bind (rest.mapM (Column.served table)) _ = _
      rw [ih h]
      rfl

/-- What a column of known type is served as. -/
def Column.descriptor (table : String) (c : Column) : ServedColumn :=
  ⟨c.name, table, (EngineType.ofWord? c.typeName).getD default, true⟩

/-- Where all types are known every column is served, in its place. -/
theorem mapM_served_eq_map {table : String} {columns : List Column} (h : firstUnknown? columns = none) :
    columns.mapM (Column.served table) = .ok (columns.map (Column.descriptor table)) := by
  induction columns with
  | nil => rfl
  | cons first rest ih =>
    unfold firstUnknown? at h
    cases hword : EngineType.ofWord? first.typeName with
    | none =>
      rw [List.find?_cons_of_pos (by simp [hword])] at h
      cases h
    | some t =>
      rw [List.find?_cons_of_neg (by simp [hword])] at h
      have hfirst : first.descriptor table = ⟨first.name, table, t, true⟩ := by
        rw [Column.descriptor, hword, Option.getD_some]
      rw [List.mapM_cons, Column.served_eq_ok.mpr ⟨t, hword, rfl⟩, ih h, List.map_cons, hfirst]
      rfl

/-- Where all types are known every column is served, under its own name. -/
theorem mapM_served_of_known {table : String} {columns : List Column} (h : firstUnknown? columns = none) :
    ∃ served, columns.mapM (Column.served table) = .ok served ∧
      served.map ServedColumn.name = columns.map Column.name := by
  refine ⟨_, mapM_served_eq_map h, ?_⟩
  rw [List.map_map]
  rfl

/-- Columns that can be served are served under their own names. -/
theorem names_of_mapM_served {table : String} {columns : List Column} {served : List ServedColumn}
    (h : columns.mapM (Column.served table) = .ok served) :
    served.map ServedColumn.name = columns.map Column.name := by
  cases hunknown : firstUnknown? columns with
  | some c =>
    rw [mapM_served_of_unknown hunknown] at h
    cases h
  | none =>
    obtain ⟨served', hserved, hnames⟩ := @mapM_served_of_known table columns hunknown
    rw [h] at hserved
    cases hserved
    exact hnames

/-! ## One platform -/

namespace Table

/-- The columns of a table on a platform: those of the base schema, then those of the extension registered for
    the platform. -/
def columnsOn (t : Table) (platform : String) : List Column :=
  (t.schema.map Schema.columns).getD [] ++ ((t.extendedSchemas.get? platform).map Schema.columns).getD []

theorem columnsFor_singleton (t : Table) (platform : String) :
    t.columnsFor [platform] = t.columnsOn platform := by
  unfold columnsFor columnsOn
  rw [List.flatMap_singleton]

theorem servedColumns_of_unknown {t : Table} {platform : String} {c : Column}
    (h : firstUnknown? (t.columnsOn platform) = some c) :
    t.servedColumns [platform] = .error (.unknownColumnType c.name c.typeName) := by
  unfold servedColumns
  rw [columnsFor_singleton]
  exact mapM_served_of_unknown h

theorem servedColumns_of_known {t : Table} {platform : String} (h : firstUnknown? (t.columnsOn platform) = none) :
    ∃ columns, t.servedColumns [platform] = .ok columns ∧
      columns.map ServedColumn.name = (t.columnsOn platform).map Column.name := by
  unfold servedColumns
  rw [columnsFor_singleton]
  exact mapM_served_of_known h

end Table
end TableSpec
