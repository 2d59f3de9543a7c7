import Mathlib.Data.List.Forall2
import TableSpec.Proofs.Database.Kept
import TableSpec.Proofs.Lists
import TableSpec.Proofs.Table.Columns

/-!
# `Proofs.Database.Reduction` — the columns of a table, and those that it is created with

The descriptors of a table's columns for a list of platforms come from many places: from the base schema, and from
the extension of every platform that is listed, as often as it is listed. The same name may come from several of
them. The table is created with the first column of each name. So what the base schema says of a name stands, and
a platform that is listed once more adds nothing.

## Contents
- `Column.HasKnownType`, `Column.ServedAs`, `FirstUnknown`: columns, their descriptors, and the one that is reported.
- `Table.firstUnknown?_eraseDups`, `Table.keepFirst_eraseDups`: platforms that come again.
- `Table.servedColumns_firstOfEach`: all of it.
-/

namespace TableSpec

/-! ## Columns and their descriptors -/

/-- The type of a column is written with one of the words that stand for a type. -/
def Column.HasKnownType (c : Column) : Prop := ∃ t : EngineType, c.typeName = t.word

/-- What a column is served as: under its own name, as a column of the table, with the type that its word stands
    for. -/
structure Column.ServedAs (table : String) (c : Column) (d : ServedColumn) : Prop where
  name_eq : d.name = c.name
  source_eq : d.source = table
  type_eq : c.typeName = d.engineType.word
  nullable_eq : d.nullable = true

/-- The error for the first of several columns whose type is not known. -/
def FirstUnknown (columns : List Column) (e : Error) : Prop :=
  ∃ before c after, columns = before ++ c :: after ∧ (∀ c' ∈ before, c'.HasKnownType) ∧ ¬c.HasKnownType ∧
    e = .unknownColumnType c.name c.typeName

section

variable {columns : List Column} {c : Column}

theorem hasKnownType_iff : c.HasKnownType ↔ (EngineType.ofWord? c.typeName).isSome = true := by
  rw [Option.isSome_iff_exists]
  simp only [EngineType.ofWord?_eq_some]
  rfl

theorem servedAs_descriptor {table : String} (h : c.HasKnownType) : c.ServedAs table (c.descriptor table) := by
  obtain ⟨t, ht⟩ := h
  refine ⟨rfl, rfl, ?_, rfl⟩
  rw [Column.descriptor, ht, EngineType.ofWord?_word, Option.getD_some]

theorem firstUnknown?_eq_none : firstUnknown? columns = none ↔ ∀ c ∈ columns, c.HasKnownType := by
  unfold firstUnknown?
  rw [List.find?_eq_none]
  simp only [hasKnownType_iff, Option.isNone_iff_eq_none, Option.isSome_iff_ne_none, ne_eq]

theorem eq_some_of_firstUnknown {e : Error} (h : FirstUnknown columns e) :
    ∃ c, firstUnknown? columns = some c ∧ e = .unknownColumnType c.name c.typeName := by
  obtain ⟨before, c, after, rfl, hbefore, hc, rfl⟩ := h
  refine ⟨c, ?_, rfl⟩
  unfold firstUnknown?
  rw [List.find?_append, List.find?_cons_of_pos (by simpa [hasKnownType_iff] using hc)]
  have hnone : firstUnknown? before = none := firstUnknown?_eq_none.mpr hbefore
  unfold firstUnknown? at hnone
  rw [hnone, Option.none_or]

end

namespace Table

open Database (createStatement columnDef keepFirst FirstOfEach keepFirst_append keepFirst_eq_nil keepFirst_congr
  exists_keepFirst_append firstOfEach_keepFirst)

variable {t : Table} {platforms : List String}

/-! ## Platforms that come again -/

/-- The column that is reported is the same without later repeats of a platform. -/
theorem firstUnknown?_eraseDups (t : Table) (platforms : List String) :
    firstUnknown? (t.columnsFor platforms.eraseDups) = firstUnknown? (t.columnsFor platforms) := by
  refine flatMap_eraseDups ?_ ?_ _ _ platforms
  · intro xs ys zs hsame _
    unfold firstUnknown? at hsame ⊢
    rw [List.find?_append, List.find?_append, hsame]
  · intro xs zs hmem
    unfold firstUnknown?
    rw [List.find?_append]
    cases hxs : xs.find? (fun c => (EngineType.ofWord? c.typeName).isNone) with
    | some c => rfl
    | none =>
      rw [Option.none_or, List.find?_eq_none]
      intro z hz
      exact List.find?_eq_none.mp hxs z (hmem z hz)

/-- The columns that are kept are the same without later repeats of a platform. -/
theorem keepFirst_eraseDups (t : Table) (platforms : List String) :
    keepFirst [] ((t.columnsFor platforms.eraseDups).map (Column.descriptor t.name)) =
      keepFirst [] ((t.columnsFor platforms).map (Column.descriptor t.name)) := by
  refine flatMap_eraseDups (f := fun columns => keepFirst [] (columns.map (Column.descriptor t.name)))
    ?_ ?_ _ _ platforms
  · intro xs ys zs hsame hmem
    show keepFirst [] ((xs ++ zs).map _) = keepFirst [] ((ys ++ zs).map _)
    rw [List.map_append, List.map_append, keepFirst_append, keepFirst_append]
    congr 1
    apply keepFirst_congr
    intro name
    simp only [List.nil_append, List.mem_map, hmem]
  · intro xs zs hmem
    show keepFirst [] ((xs ++ zs).map _) = keepFirst [] (xs.map _)
    rw [List.map_append, keepFirst_append, List.append_right_eq_self]
    apply keepFirst_eq_nil
    intro d hd
    obtain ⟨c, hc, rfl⟩ := List.mem_map.mp hd
    exact List.mem_map_of_mem (List.mem_map_of_mem (hmem c hc))

/-! ## Descriptors -/

theorem servedColumns_of_knownTypes (h : ∀ c ∈ t.columnsFor platforms, c.HasKnownType) :
    t.servedColumns platforms = .ok ((t.columnsFor platforms).map (Column.descriptor t.name)) :=
  mapM_served_eq_map (firstUnknown?_eq_none.mpr h)

theorem servedColumns_of_firstUnknown {e : Error} (h : FirstUnknown (t.columnsFor platforms) e) :
    t.servedColumns platforms = .error e := by
  obtain ⟨c, hc, rfl⟩ := eq_some_of_firstUnknown h
  exact mapM_served_of_unknown hc

theorem known_or_firstUnknown (columns : List Column) :
    (∀ c ∈ columns, c.HasKnownType) ∨ ∃ e, FirstUnknown columns e := by
  rcases forall_or_first Column.HasKnownType columns with hknown | ⟨before, c, after, hcolumns, hbefore, hc⟩
  · exact Or.inl hknown
  · exact Or.inr ⟨_, before, c, after, hcolumns, hbefore, hc, rfl⟩

/-- The statement, or the error, is the same without later repeats of a platform. -/
theorem map_createStatement_eraseDups (t : Table) (platforms : List String) :
    (t.servedColumns platforms.eraseDups).map (createStatement t.name) =
      (t.servedColumns platforms).map (createStatement t.name) := by
  have hunknown := t.firstUnknown?_eraseDups platforms
  unfold servedColumns
  cases h : firstUnknown? (t.columnsFor platforms) with
  | some c =>
    rw [h] at hunknown
    rw [mapM_served_of_unknown h, mapM_served_of_unknown hunknown]
  | none =>
    rw [h] at hunknown
    rw [mapM_served_eq_map h, mapM_served_eq_map hunknown]
    show Except.ok (createStatement _ _) = Except.ok (createStatement _ _)
    unfold createStatement
    rw [keepFirst_eraseDups]

/-- The columns of the base schema come first, for every list of platforms. -/
theorem columnsFor_eq_append (t : Table) (platforms : List String) :
    ∃ more, t.columnsFor platforms = t.columnsFor [] ++ more := by
  refine ⟨platforms.flatMap (fun p => ((t.extendedSchemas.get? p).map Schema.columns).getD []), ?_⟩
  unfold columnsFor
  rw [List.flatMap_nil, List.append_nil]

/-- **The columns of a table, and those that it is created with.** The table has descriptors for a list of platforms
    just when every column has a known type, of those of the base schema and of the extensions registered for the
    platforms, in this order. They are then the descriptors of these columns in this order, as columns of the
    table. Otherwise the error names the first column in this order whose type is not known.

    The table is created with the first column of each name. Those of the base schema are among them as they are
    without any platform, in front, and what comes after them has other names. A platform that is listed again
    changes neither the statement nor the error. -/
theorem servedColumns_firstOfEach (t : Table) (platforms : List String) :
    ((∃ columns, t.servedColumns platforms = .ok columns) ↔
      ∀ c ∈ t.columnsFor platforms, c.HasKnownType) ∧
    (∀ columns, t.servedColumns platforms = .ok columns →
      List.Forall₂ (Column.ServedAs t.name) (t.columnsFor platforms) columns ∧
      ∃ kept, createStatement t.name columns = .createTable t.name (kept.map columnDef) ∧
        FirstOfEach columns kept ∧
        ∃ base own more, t.servedColumns [] = .ok base ∧
          createStatement t.name base = .createTable t.name (own.map columnDef) ∧
          kept = own ++ more ∧ ∀ c ∈ more, c.name ∉ base.map ServedColumn.name) ∧
    (∀ e, t.servedColumns platforms = .error e ↔ FirstUnknown (t.columnsFor platforms) e) ∧
    (t.servedColumns platforms.eraseDups).map (createStatement t.name) =
      (t.servedColumns platforms).map (createStatement t.name) := by
  have hdecided := decided (x := t.servedColumns platforms)
    (fun h => ⟨_, servedColumns_of_knownTypes h, rfl⟩) (fun _ => servedColumns_of_firstUnknown)
    (known_or_firstUnknown (t.columnsFor platforms))
  obtain ⟨haccepted, hmeaning, hfault⟩ := hdecided
  refine ⟨haccepted, ?_, hfault, t.map_createStatement_eraseDups platforms⟩
  intro columns hcolumns
  have hknown := haccepted.mp ⟨columns, hcolumns⟩
  obtain rfl := hmeaning columns hcolumns
  refine ⟨?_, _, rfl, firstOfEach_keepFirst _, ?_⟩
  · rw [List.forall₂_map_right_iff, List.forall₂_same]
    exact fun c hc => servedAs_descriptor (hknown c hc)
  · obtain ⟨more, hmore⟩ := t.columnsFor_eq_append platforms
    have hbase : ∀ c ∈ t.columnsFor [], c.HasKnownType := by
      intro c hc
      exact hknown c (hmore ▸ List.mem_append_left more hc)
    obtain ⟨rest, hrest, hnames⟩ := exists_keepFirst_append
      ((t.columnsFor []).map (Column.descriptor t.name)) (more.map (Column.descriptor t.name))
    rw [← List.map_append, ← hmore] at hrest
    exact ⟨_, _, rest, servedColumns_of_knownTypes hbase, rfl, hrest, hnames⟩

/-- A table with a name twice in its base schema, once more in an extension, and one in two extensions. -/
def repetitive : Table where
  name := "file"
  schema := some { columns := [{ name := "path", typeName := "TEXT" }, { name := "path", typeName := "BLOB" }] }
  extendedSchemas := .ofList
    [("darwin", { columns := [{ name := "mode", typeName := "TEXT" }, { name := "flags", typeName := "BIGINT" }] }),
     ("linux", { columns := [{ name := "mode", typeName := "INTEGER" }, { name := "path", typeName := "DATE" }] })]

/-- What it is served with on platforms of which one comes twice and one has no extension. -/
def repetitiveColumns : List ServedColumn :=
  [⟨"path", "file", .text, true⟩, ⟨"path", "file", .blob, true⟩, ⟨"mode", "file", .int32, true⟩,
    ⟨"path", "file", .date, true⟩, ⟨"mode", "file", .text, true⟩, ⟨"flags", "file", .int64, true⟩,
    ⟨"mode", "file", .int32, true⟩, ⟨"path", "file", .date, true⟩]

theorem servedColumns_firstOfEach_repetitive :
    repetitive.servedColumns ["linux", "beos", "darwin", "linux"] = .ok repetitiveColumns ∧
    createStatement "file" repetitiveColumns =
      .createTable "file" [⟨"path", "TEXT", true⟩, ⟨"mode", "INTEGER", true⟩, ⟨"flags", "INTEGER", true⟩] ∧
    ∃ kept, createStatement "file" repetitiveColumns = .createTable "file" (kept.map columnDef) ∧
      FirstOfEach repetitiveColumns kept := by
  have hserved : repetitive.servedColumns ["linux", "beos", "darwin", "linux"] = .ok repetitiveColumns := rfl
  obtain ⟨-, hmeaning, -, -⟩ := servedColumns_firstOfEach repetitive ["linux", "beos", "darwin", "linux"]
  obtain ⟨-, kept, hstatement, hkept, -⟩ := hmeaning repetitiveColumns hserved
  exact ⟨hserved, rfl, kept, hstatement, hkept⟩

end Table
end TableSpec
