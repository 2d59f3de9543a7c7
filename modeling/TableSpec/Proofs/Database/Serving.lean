import TableSpec.Proofs.Catalog.Selection
import TableSpec.Proofs.Database.LifeCycle
import TableSpec.Proofs.Lists

/-!
# `Proofs.Database.Serving` — what is served for an operating system

Several directories apply to an operating system, and a table of the same name may be in more than one of them.
The tables are registered one after the other, so that the last one of a name is served (`foldlM_addOwned_of_known`).
But every one of them has to be served before it is replaced: a column of unknown type is an error of the whole
database, also in a table that a later one would have hidden (`foldlM_addOwned_of_unknown`).

## Contents
- `createAll_eq_error`: the error of the engine. `ofCatalog_of_unlisted`, `ofCatalog_of_listed`.
- `addOwned_of_unknown`, `addOwned_of_known`: one table. `foldlM_addOwned_of_unknown`, `foldlM_addOwned_of_known`:
  all of them.
- `ofCatalog_serves`: all of it.
-/

namespace TableSpec

/-! ## Errors of the engine -/

namespace Sql.Engine

theorem create_eq_error {engine : Engine} {name : String} {columns : List ColumnDef} {e : Error}
    (h : engine.create name columns = .error e) : e = .storage := by
  unfold create at h
  split at h
  · cases h
  · cases h
    rfl

theorem execute_eq_error {engine : Engine} {sql : String} {e : Error} (h : engine.execute sql = .error e) :
    e = .storage := by
  unfold execute at h
  split at h
  · exact create_eq_error h
  · cases h
    rfl

end Sql.Engine

namespace Database

theorem createAll_eq_error {manifest : KeyMap (List ServedColumn)} {e : Error}
    (h : createAll manifest = .error e) : e = .storage := by
  obtain ⟨engine, entry, -, h⟩ := exists_of_foldlM_eq_error h
  exact Sql.Engine.execute_eq_error h

/-! ## One table -/

variable {db : Database} {system : String} {o : OwnedTable}

/-- A table with a column of unknown type is an error that says where the table is from. -/
theorem addOwned_of_unknown {c : Column} (hdb : db.isInitialized = false)
    (h : firstUnknown? (o.table.columnsOn system) = some c) :
    addOwned system db o = .error (.inFile (o.owner.key ++ "/" ++ o.table.name)
      (.unknownColumnType c.name c.typeName)) := by
  unfold addOwned
  rw [addTable_of_error hdb (Table.servedColumns_of_unknown h)]
  rfl

theorem addOwned_of_known (hdb : db.isInitialized = false) (h : firstUnknown? (o.table.columnsOn system) = none) :
    ∃ columns, o.table.servedColumns [system] = .ok columns ∧
      addOwned system db o = .ok (db.enter o.table.name columns) := by
  obtain ⟨columns, hcolumns, -⟩ := Table.servedColumns_of_known h
  refine ⟨columns, hcolumns, ?_⟩
  unfold addOwned
  rw [addTable_of_ok hdb hcolumns]
  rfl

/-! ## All tables -/

/-- **The first table with a column of unknown type is reported**, whatever comes after it. -/
theorem foldlM_addOwned_of_unknown {before after : List OwnedTable} {c : Column}
    (hdb : db.isInitialized = false) (hbefore : ∀ o' ∈ before, firstUnknown? (o'.table.columnsOn system) = none)
    (h : firstUnknown? (o.table.columnsOn system) = some c) :
    (before ++ o :: after).foldlM (addOwned system) db =
      .error (.inFile (o.owner.key ++ "/" ++ o.table.name) (.unknownColumnType c.name c.typeName)) := by
  induction before generalizing db with
  | nil => exact bind_eq_error.mpr (Or.inl (addOwned_of_unknown hdb h))
  | cons first rest ih =>
    obtain ⟨columns, -, hadd⟩ := addOwned_of_known hdb (hbefore first List.mem_cons_self)
    refine bind_eq_error.mpr (Or.inr ⟨_, hadd, ?_⟩)
    apply ih
    · exact hdb
    · intro o' ho'
      exact hbefore o' (List.mem_cons_of_mem first ho')

/-- **The last table of a name counts**, when all types are known. -/
theorem foldlM_addOwned_of_known {tables : List OwnedTable} (hdb : db.isInitialized = false)
    (h : ∀ o ∈ tables, firstUnknown? (o.table.columnsOn system) = none) :
    ∃ db', tables.foldlM (addOwned system) db = .ok db' ∧ db'.isInitialized = false ∧
      ∀ name, db'.manifest.get? name =
        match (tables.filter (fun o => o.table.name = name)).getLast? with
        | some o => registered (o.table, [system])
        | none => db.manifest.get? name := by
  induction tables generalizing db with
  | nil => exact ⟨db, rfl, hdb, fun name => rfl⟩
  | cons first rest ih =>
    obtain ⟨columns, hcolumns, hadd⟩ := addOwned_of_known hdb (h first List.mem_cons_self)
    have henter : (db.enter first.table.name columns).isInitialized = false := hdb
    obtain ⟨db', hrest, hdb', hmanifest⟩ := ih henter (fun o ho => h o (List.mem_cons_of_mem first ho))
    refine ⟨db', bind_eq_ok.mpr ⟨_, hadd, hrest⟩, hdb', ?_⟩
    intro name
    rw [hmanifest, get?_enter]
    by_cases hname : first.table.name = name
    · rw [List.filter_cons_of_pos (by simpa using hname), List.getLast?_cons, if_pos hname.symm]
      -- this table counts unless a later one has its name
      cases (rest.filter (fun o => o.table.name = name)).getLast? with
      | none => simp [registered, hcolumns, Except.toOption]
      | some o => rfl
    · rw [List.filter_cons_of_neg (by simpa using hname), if_neg (Ne.symm hname)]

/-! ## The database of a catalog -/

theorem start_eq_error {e : Error} (hdb : db.isInitialized = false) (h : createAll db.manifest = .error e) :
    db.start = .error .storage := by
  unfold start
  rw [if_neg (by simp [hdb]), h, createAll_eq_error h]
  rfl

/-- An operating system that is not in the table has no database. -/
theorem ofCatalog_of_unlisted {c : Catalog} (h : system ∉ Platform.operatingSystems.map Prod.fst) :
    ofCatalog c system = .error (.lookup system "OS namespaces") :=
  bind_eq_error.mpr (Or.inl (Catalog.tablesForSystem_of_unlisted h))

/-- The database of a catalog is made of the tables in the directories that apply to the operating system. -/
theorem ofCatalog_of_listed {c : Catalog} {row : List String} (h : (system, row) ∈ Platform.operatingSystems) :
    ofCatalog c system = ((c.tablesIn row).foldlM (addOwned system) {}).bind start := by
  unfold ofCatalog
  rw [Catalog.tablesForSystem_of_listed h]
  rfl

section

variable {c : Catalog} {row : List String}

/-- A column of unknown type in one of the tables is an error of the whole database. -/
theorem ofCatalog_of_unknown {before after : List OwnedTable} {column : Column}
    (hrow : (system, row) ∈ Platform.operatingSystems) (htables : c.tablesIn row = before ++ o :: after)
    (hbefore : ∀ o' ∈ before, firstUnknown? (o'.table.columnsOn system) = none)
    (hcolumn : firstUnknown? (o.table.columnsOn system) = some column) :
    ofCatalog c system = .error (.inFile (o.owner.key ++ "/" ++ o.table.name)
      (.unknownColumnType column.name column.typeName)) := by
  rw [ofCatalog_of_listed hrow, htables, foldlM_addOwned_of_unknown rfl hbefore hcolumn]
  rfl

/-- Without one, the last table of each name is registered, and the engine decides the rest. -/
theorem ofCatalog_of_known (hrow : (system, row) ∈ Platform.operatingSystems)
    (hknown : ∀ o ∈ c.tablesIn row, firstUnknown? (o.table.columnsOn system) = none) :
    ∃ db : Database, ofCatalog c system = db.start ∧ db.isInitialized = false ∧
      ∀ name columns, db.manifest.get? name = some columns ↔
        ∃ o, ((c.tablesIn row).filter (fun o => o.table.name = name)).getLast? = some o ∧
          o.table.servedColumns [system] = .ok columns ∧ columns ≠ [] := by
  have hempty : ({} : Database).isInitialized = false := rfl
  obtain ⟨db, hfold, hdb, hmanifest⟩ := foldlM_addOwned_of_known hempty hknown
  refine ⟨db, ?_, hdb, ?_⟩
  · rw [ofCatalog_of_listed hrow, hfold]
    rfl
  · intro name columns
    rw [hmanifest]
    cases ((c.tablesIn row).filter (fun o => o.table.name = name)).getLast? with
    | none => simp [KeyMap.get?_empty]
    | some o => simp [registered_eq_some]

/-- Either all tables have columns of known types only, or there is a first one that has not. -/
theorem known_or_first (system : String) (tables : List OwnedTable) :
    (∀ o ∈ tables, firstUnknown? (o.table.columnsOn system) = none) ∨
    ∃ before o after column, tables = before ++ o :: after ∧
      (∀ o' ∈ before, firstUnknown? (o'.table.columnsOn system) = none) ∧
      firstUnknown? (o.table.columnsOn system) = some column := by
  rcases forall_or_first (fun o : OwnedTable => firstUnknown? (o.table.columnsOn system) = none) tables with
    hknown | ⟨before, o, after, htables, hbefore, ho⟩
  · exact Or.inl hknown
  · obtain ⟨column, hcolumn⟩ := Option.ne_none_iff_exists'.mp ho
    exact Or.inr ⟨before, o, after, column, htables, hbefore, hcolumn⟩

/-- An operating system that is in the table is found there. -/
theorem ofCatalog_ne_lookup (hrow : (system, row) ∈ Platform.operatingSystems) (key title : String) :
    ofCatalog c system ≠ .error (.lookup key title) := by
  intro herror
  rcases known_or_first system (c.tablesIn row) with hknown | ⟨before, o, after, column, htables, hbefore, hcolumn⟩
  · obtain ⟨db, hdb, hinit, -⟩ := ofCatalog_of_known hrow hknown
    rw [hdb] at herror
    cases hengine : createAll db.manifest with
    | error e =>
      rw [start_eq_error hinit hengine] at herror
      cases herror
    | ok engine =>
      rw [start_eq_ok.mpr ⟨hinit, engine, hengine, rfl⟩] at herror
      cases herror
  · rw [ofCatalog_of_unknown hrow htables hbefore hcolumn] at herror
    cases herror

end

/-- **What is served for an operating system.** A database fails for want of an entry just when the operating
    system is not in the table of operating systems.

    Otherwise let `tables` be the tables of the directories in its row, in the order of the row and within a
    directory in the order of their names. If one of them has a column of unknown type, among those of the base
    schema and of the extension for the operating system, the first such column of the first such table is the
    error, which names the table. If there is none, the manifest holds under a name the columns of the last table
    of that name, unless it has none. When the engine takes this manifest the database is ready with it, and
    otherwise the error is that of the engine. -/
theorem ofCatalog_serves (c : Catalog) (system : String) :
    (∀ key title, ofCatalog c system = .error (.lookup key title) ↔
      system ∉ Platform.operatingSystems.map Prod.fst ∧ key = system ∧ title = "OS namespaces") ∧
    ∀ row, (system, row) ∈ Platform.operatingSystems →
      let tables := c.tablesIn row
      (∀ before o after column, tables = before ++ o :: after →
        (∀ o' ∈ before, firstUnknown? (o'.table.columnsOn system) = none) →
        firstUnknown? (o.table.columnsOn system) = some column →
          ofCatalog c system = .error (.inFile (o.owner.key ++ "/" ++ o.table.name)
            (.unknownColumnType column.name column.typeName))) ∧
      ((∀ o ∈ tables, firstUnknown? (o.table.columnsOn system) = none) →
        ∃ manifest : KeyMap (List ServedColumn),
          (∀ name columns, manifest.get? name = some columns ↔
            ∃ o, (tables.filter (fun o => o.table.name = name)).getLast? = some o ∧
              o.table.servedColumns [system] = .ok columns ∧ columns ≠ []) ∧
          (∀ engine, createAll manifest = .ok engine → ∃ db, ofCatalog c system = .ok db ∧
            db.isInitialized = true ∧ ∀ name, db.schema? name = manifest.get? name) ∧
          ∀ e, createAll manifest = .error e → ofCatalog c system = .error .storage) := by
  refine ⟨?_, ?_⟩
  · intro key title
    constructor
    · intro herror
      have hsystem : system ∉ Platform.operatingSystems.map Prod.fst := by
        intro hmem
        obtain ⟨entry, hentry, rfl⟩ := List.mem_map.mp hmem
        exact ofCatalog_ne_lookup hentry key title herror
      rw [ofCatalog_of_unlisted hsystem] at herror
      cases herror
      exact ⟨hsystem, rfl, rfl⟩
    · rintro ⟨hsystem, rfl, rfl⟩
      exact ofCatalog_of_unlisted hsystem
  · intro row hrow tables
    refine ⟨fun before o after column => ofCatalog_of_unknown hrow, ?_⟩
    intro hknown
    obtain ⟨db, hdb, hinit, hmanifest⟩ := ofCatalog_of_known hrow hknown
    refine ⟨db.manifest, hmanifest, ?_, ?_⟩
    · intro engine hengine
      refine ⟨{ db with engine := some engine }, ?_, rfl, fun name => rfl⟩
      rw [hdb]
      exact start_eq_ok.mpr ⟨hinit, engine, hengine, rfl⟩
    · intro e hengine
      rw [hdb]
      exact start_eq_error hinit hengine

/-- A table that is replaced by one without columns, another one beside it, and in a directory of another
    operating system one with a column of unknown type. -/
def overlaps : Catalog :=
  ⟨.ofList
    [("linux", { key := "linux", tables := .ofList [
        ("a", { name := "a", schema := some { columns := [{ name := "x", typeName := "TEXT" }] } }),
        ("b", { name := "b", schema := some { columns := [{ name := "y", typeName := "BLOB" }] } })] }),
     ("posix", { key := "posix", tables := .ofList [("a", { name := "a" })] }),
     ("windows", { key := "windows", tables := .ofList [
        ("a", { name := "a", schema := some { columns := [{ name := "z", typeName := "WORD" }] } })] })]⟩

theorem ofCatalog_serves_overlaps :
    (∃ db, ofCatalog overlaps "linux" = .ok db ∧ db.isInitialized = true ∧ db.schema? "a" = none ∧
      db.schema? "b" = some [⟨"y", "b", .blob, true⟩]) ∧
    ofCatalog overlaps "windows" = .error (.inFile "windows/a" (.unknownColumnType "z" "WORD")) ∧
    ofCatalog overlaps "beos" = .error (.lookup "beos" "OS namespaces") := by
  refine ⟨?_, ?_, ((ofCatalog_serves overlaps "beos").1 _ _).mpr ⟨by decide, rfl, rfl⟩⟩
  · obtain ⟨manifest, hmanifest, hready, hfails⟩ :=
      ((ofCatalog_serves overlaps "linux").2 _ (Platform.directoriesFor_eq_ok.mp rfl)).2 (by decide)
    cases hengine : createAll manifest with
    | error e => exact absurd (hfails e hengine) (by decide +kernel)
    | ok engine =>
      obtain ⟨db, hdb, hinit, hschema⟩ := hready engine hengine
      refine ⟨db, hdb, hinit, ?_, ?_⟩
      · rw [hschema, Option.eq_none_iff_forall_ne_some]
        intro columns hcolumns
        obtain ⟨o, ho, hserved, hne⟩ := (hmanifest "a" columns).mp hcolumns
        cases ho
        cases hserved
        exact hne rfl
      · rw [hschema]
        exact (hmanifest "b" _).mpr ⟨_, rfl, rfl, by simp⟩
  · obtain ⟨hunknown, -⟩ := (ofCatalog_serves overlaps "windows").2 _ (Platform.directoriesFor_eq_ok.mp rfl)
    exact hunknown [] _ [] _ rfl (by simp) rfl

end Database
end TableSpec
