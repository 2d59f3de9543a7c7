import Mathlib.Data.List.Find
import TableSpec.Proofs.Database.Serving
import TableSpec.Proofs.Database.Written
import TableSpec.Proofs.Sql.Engine

/-!
# `Proofs.Database.Materialised` — the tables that the engine is given

When a database starts, the engine gets a table for every entry of the manifest. The manifest tells names apart by
their letters and the engine without regard to case. So a start fails for names that differ only in case: of two
tables, or of two columns of one table, of which only those with the very same name have been merged
(`start_fails_on_case`). Where there are no such names, and none that the engine keeps for itself, it succeeds.

## Contents
- `mem_keepFirst_iff_fold`, `nodup_fold_keepFirst`: the columns that are kept, as the engine tells names apart.
- `createAll_eq_createEach`, `isCreatable_relationOf`: the tables of a manifest.
- `ToldApart`: manifests whose names the engine tells apart. `createAll_eq_ok`.
- `isPlainName`, `addEach`: what is registered by additions. `get?_addEach`, `writable_of_addEach`.
- `start_iff_toldApart`: when a start succeeds, and what there is afterwards.
-/

namespace TableSpec
namespace Database

/-! ## Columns that are kept -/

section

variable {columns : List ServedColumn} {c : ServedColumn}

/-- Where names are told apart, the first definition of a name is the first of those that the engine takes for
    the same name. -/
theorem find?_fold (hc : c ∈ columns)
    (h : ∀ c ∈ columns, ∀ d ∈ columns, Sql.fold c.name = Sql.fold d.name → c.name = d.name) :
    columns.find? (fun d => Sql.fold d.name = Sql.fold c.name) = columns.find? (fun d => d.name = c.name) := by
  apply List.find?_congr
  intro d hd
  rw [decide_eq_decide]
  exact ⟨h d hd c hc, fun hname => hname ▸ rfl⟩

theorem mem_keepFirst_iff_fold
    (h : ∀ c ∈ columns, ∀ d ∈ columns, Sql.fold c.name = Sql.fold d.name → c.name = d.name) :
    c ∈ keepFirst [] columns ↔ columns.find? (fun d => Sql.fold d.name = Sql.fold c.name) = some c := by
  constructor
  · intro hc
    rw [find?_fold ((keepFirst_sublist [] columns).mem hc) h]
    exact (mem_keepFirst.mp hc).2
  · intro hfirst
    rw [find?_fold (List.mem_of_find?_eq_some hfirst) h] at hfirst
    exact mem_keepFirst.mpr ⟨List.not_mem_nil, hfirst⟩

/-- The names that are kept are told apart when all are. -/
theorem nodup_fold_keepFirst : (((keepFirst [] columns).map ServedColumn.name).map Sql.fold).Nodup ↔
    ∀ c ∈ columns, ∀ d ∈ columns, Sql.fold c.name = Sql.fold d.name → c.name = d.name := by
  rw [List.nodup_map_iff_inj_on (nodup_keepFirst [] columns)]
  simp only [mem_names_keepFirst, List.not_mem_nil, not_false_iff, true_and, List.forall_mem_map]

end

/-! ## The tables of a manifest -/

/-- The table of an entry. -/
def relationOf (entry : String × List ServedColumn) : Sql.Relation :=
  ⟨entry.1, (keepFirst [] entry.2).map columnDef⟩

/-- Whether the statement that creates the table of an entry is read as it was written. -/
structure IsWritable (entry : String × List ServedColumn) : Prop where
  name : Sql.Sound entry.1.toList
  columns : ∀ c ∈ entry.2, Sql.Sound c.name.toList
  ne_nil : entry.2 ≠ []

theorem ofText?_createStatement {entry : String × List ServedColumn} (h : IsWritable entry) :
    Sql.Statement.ofText? (createStatement entry.1 entry.2).text =
      some (.createTable (relationOf entry).name (relationOf entry).columns) := by
  refine Sql.ofText?_createTable h.name ?_ ?_
  · simpa using keepFirst_ne_nil h.ne_nil
  · intro d hd
    obtain ⟨c, hc, rfl⟩ := List.mem_map.mp hd
    exact ⟨h.columns c ((keepFirst_sublist [] entry.2).mem hc), isWord_declaration c.engineType⟩

/-- All tables of a manifest are created, one after the other. -/
theorem createAll_eq_createEach {manifest : KeyMap (List ServedColumn)}
    (h : ∀ entry ∈ manifest.entries, IsWritable entry) :
    createAll manifest =
      (manifest.entries.map relationOf).foldlM (fun e r => e.create r.name r.columns) ({} : Sql.Engine) := by
  unfold createAll
  rw [List.foldlM_map]
  apply foldlM_congr
  intro entry hentry e
  rw [Sql.Engine.execute, ofText?_createStatement (h entry hentry)]

/-- The table of an entry is taken when its name is free and its columns are told apart. -/
theorem isCreatable_relationOf {entry : String × List ServedColumn} (hlength : entry.2.length ≤ Sql.maxColumns) :
    (relationOf entry).IsCreatable ↔ Sql.isFreeName entry.1 = true ∧
      ∀ c ∈ entry.2, ∀ d ∈ entry.2, Sql.fold c.name = Sql.fold d.name → c.name = d.name := by
  have hnames : (relationOf entry).columns.map Sql.ColumnDef.name =
      (keepFirst [] entry.2).map ServedColumn.name := by
    rw [relationOf, List.map_map]
    rfl
  have hkept : (relationOf entry).columns.length ≤ Sql.maxColumns := by
    rw [relationOf, List.length_map]
    exact Nat.le_trans (keepFirst_sublist [] entry.2).length_le hlength
  constructor
  · intro h
    exact ⟨h.isFreeName, nodup_fold_keepFirst.mp (hnames ▸ h.nodup)⟩
  · rintro ⟨hfree, hcolumns⟩
    exact ⟨hfree, hnames ▸ nodup_fold_keepFirst.mpr hcolumns, hkept⟩

/-! ## Names that are told apart -/

/-- A manifest whose names the engine tells apart, and does not keep for itself. -/
structure ToldApart (manifest : KeyMap (List ServedColumn)) : Prop where
  free : ∀ entry ∈ manifest.entries, Sql.isFreeName entry.1 = true
  columns : ∀ entry ∈ manifest.entries, ∀ c ∈ entry.2, ∀ d ∈ entry.2,
    Sql.fold c.name = Sql.fold d.name → c.name = d.name
  tables : ∀ entry ∈ manifest.entries, ∀ other ∈ manifest.entries,
    Sql.fold entry.1 = Sql.fold other.1 → entry.1 = other.1

theorem nodup_keys (manifest : KeyMap (List ServedColumn)) : manifest.keys.Nodup := by
  refine manifest.pairwise_keys.imp ?_
  rintro name _ hlt rfl
  exact String.lt_irrefl name hlt

theorem nodup_relations {manifest : KeyMap (List ServedColumn)} :
    ((manifest.entries.map relationOf).map (fun r => Sql.fold r.name)).Nodup ↔
      ∀ entry ∈ manifest.entries, ∀ other ∈ manifest.entries,
        Sql.fold entry.1 = Sql.fold other.1 → entry.1 = other.1 := by
  have hkeys : (manifest.entries.map relationOf).map (fun r => Sql.fold r.name) = manifest.keys.map Sql.fold := by
    rw [KeyMap.keys, List.map_map, List.map_map]
    rfl
  rw [hkeys, List.nodup_map_iff_inj_on (nodup_keys manifest), KeyMap.keys]
  simp only [List.forall_mem_map]

/-- **A manifest is taken just when its names are told apart**, and then table by table. -/
theorem createAll_eq_ok {manifest : KeyMap (List ServedColumn)} {engine : Sql.Engine}
    (hwritable : ∀ entry ∈ manifest.entries, IsWritable entry)
    (hlength : ∀ entry ∈ manifest.entries, entry.2.length ≤ Sql.maxColumns) :
    createAll manifest = .ok engine ↔ ToldApart manifest ∧ engine = ⟨manifest.entries.map relationOf⟩ := by
  have hempty : ((({} : Sql.Engine).relations).map (fun r => Sql.fold r.name)).Nodup := List.nodup_nil
  rw [createAll_eq_createEach hwritable, Sql.Engine.createEach_eq_ok hempty, List.nil_append,
    nodup_relations, List.forall_mem_map]
  constructor
  · rintro ⟨hgood, htables, rfl⟩
    refine ⟨⟨?_, ?_, htables⟩, rfl⟩
    · exact fun entry hentry => ((isCreatable_relationOf (hlength entry hentry)).mp (hgood entry hentry)).1
    · exact fun entry hentry => ((isCreatable_relationOf (hlength entry hentry)).mp (hgood entry hentry)).2
  · rintro ⟨h, rfl⟩
    refine ⟨?_, h.tables, rfl⟩
    intro entry hentry
    exact (isCreatable_relationOf (hlength entry hentry)).mpr ⟨h.free entry hentry, h.columns entry hentry⟩

/-! ## Registered names -/

/-- Words of ASCII letters, digits and underscores that do not begin as the names that the engine keeps for
    itself are written. -/
def isPlainName (name : String) : Bool :=
  !name.isEmpty && name.toList.all (fun c => c.isAlphanum || c == '_') &&
    !Sql.reservedStart.isPrefixOf name.toList

theorem sound_of_isPlainName {name : String} (h : isPlainName name = true) : Sql.Sound name.toList := by
  simp only [isPlainName, Bool.and_eq_true] at h
  intro c hc hzero
  obtain rfl : c = '\x00' := Char.toNat_inj.mp hzero
  exact absurd (List.all_eq_true.mp h.1.2 _ hc) (by decide)

/-- Register several tables, each for a list of platforms. -/
def addEach (db : Database) (additions : List (Table × List String)) : Except Error Database :=
  additions.foldlM (fun db a => db.addTable a.1 a.2) db

/-- What the manifest holds after additions, it held before or it is what one of them was served with. -/
theorem get?_addEach {db db' : Database} {additions : List (Table × List String)} (hdb : db.isInitialized = false)
    (h : db.addEach additions = .ok db') :
    db'.isInitialized = false ∧ ∀ name columns, db'.manifest.get? name = some columns →
      db.manifest.get? name = some columns ∨
        ∃ a ∈ additions, a.1.name = name ∧ a.1.servedColumns a.2 = .ok columns ∧ columns ≠ [] := by
  induction additions generalizing db with
  | nil =>
    cases h
    exact ⟨hdb, fun name columns hget => .inl hget⟩
  | cons a rest ih =>
    obtain ⟨db'', hadd, hrest⟩ := bind_eq_ok.mp h
    obtain ⟨-, served, hserved, rfl⟩ := addTable_eq_ok.mp hadd
    have henter : (db.enter a.1.name served).isInitialized = false := hdb
    obtain ⟨hdb', hmanifest⟩ := ih henter hrest
    refine ⟨hdb', ?_⟩
    intro name columns hget
    rcases hmanifest name columns hget with hget | ⟨a', ha', hname, hcolumns⟩
    · rw [get?_enter] at hget
      split at hget
      · rename_i hname
        have hregistered : registered a = some columns := by
          rw [registered, hserved]
          exact hget
        exact .inr ⟨a, List.mem_cons_self, hname.symm, registered_eq_some.mp hregistered⟩
      · exact .inl hget
    · exact .inr ⟨a', List.mem_cons_of_mem a ha', hname, hcolumns⟩

/-- What is registered under plain names can be written. -/
theorem writable_of_addEach {label : String} {additions : List (Table × List String)} {db : Database}
    (h : (new label).addEach additions = .ok db)
    (hnames : ∀ a ∈ additions, isPlainName a.1.name = true ∧
      ∀ c ∈ a.1.columnsFor a.2, isPlainName c.name = true)
    (hlength : ∀ a ∈ additions, (a.1.columnsFor a.2).length ≤ Sql.maxColumns) :
    ∀ entry ∈ db.manifest.entries, IsWritable entry ∧ entry.2.length ≤ Sql.maxColumns := by
  intro entry hmem
  obtain ⟨-, hmanifest⟩ := get?_addEach rfl h
  rcases hmanifest entry.1 entry.2 (KeyMap.mem_entries_iff.mp hmem) with hnew | ⟨a, ha, hname, hserved, hne⟩
  · exact absurd hnew (by simp [new])
  · have hcolumns : entry.2.map ServedColumn.name = (a.1.columnsFor a.2).map Column.name :=
      names_of_mapM_served hserved
    refine ⟨⟨?_, ?_, hne⟩, ?_⟩
    · rw [← hname]
      exact sound_of_isPlainName (hnames a ha).1
    · intro d hd
      obtain ⟨c, hc, hcd⟩ := List.mem_map.mp (hcolumns ▸ List.mem_map_of_mem hd)
      rw [← hcd]
      exact sound_of_isPlainName ((hnames a ha).2 c hc)
    · rw [← List.length_map ServedColumn.name, hcolumns, List.length_map]
      exact hlength a ha

/-! ## Starting -/

/-- A manifest whose names are not told apart is turned away. -/
theorem start_eq_error_of_not_toldApart {db : Database} (hinit : db.isInitialized = false)
    (hwritable : ∀ entry ∈ db.manifest.entries, IsWritable entry)
    (hlength : ∀ entry ∈ db.manifest.entries, entry.2.length ≤ Sql.maxColumns) (h : ¬ToldApart db.manifest) :
    db.start = .error .storage := by
  cases hengine : createAll db.manifest with
  | error e => exact start_eq_error hinit hengine
  | ok engine => exact absurd ((createAll_eq_ok hwritable hlength).mp hengine).1 h

theorem query_of_engine {db : Database} {engine : Sql.Engine} (h : db.engine = some engine) (sql : String) :
    db.query sql = engine.query sql := by
  rw [query, h]

/-- **When a start succeeds.** Register tables whose names, and whose columns' names, are plain and that have no more
    columns than a table may have. The start succeeds just when the engine tells the names of the manifest apart;
    that of an engine is the only error that there is. After a start there is a table without rows for every
    entry of the manifest. It has every name among the columns of the entry once, as the engine tells names
    apart, in order and each with its first definition. -/
theorem start_iff_toldApart {label : String} {additions : List (Table × List String)} {db : Database}
    (hadditions : (new label).addEach additions = .ok db)
    (hnames : ∀ a ∈ additions, isPlainName a.1.name = true ∧
      ∀ c ∈ a.1.columnsFor a.2, isPlainName c.name = true)
    (hlength : ∀ a ∈ additions, (a.1.columnsFor a.2).length ≤ Sql.maxColumns) :
    ((∃ db', db.start = .ok db') ↔ ToldApart db.manifest) ∧
    (∀ e, db.start = .error e → e = .storage) ∧
    ∀ db', db.start = .ok db' → ∀ name columns, db.schema? name = some columns →
      ∃ kept : List ServedColumn,
        kept.Sublist columns ∧
        (∀ c, c ∈ kept ↔ columns.find? (fun d => Sql.fold d.name = Sql.fold c.name) = some c) ∧
        ((kept.map ServedColumn.name).map Sql.fold).Nodup ∧
        db'.engine.bind (fun e => e.relation? name) = some ⟨name, kept.map columnDef⟩ ∧
        db'.query (Sql.Statement.rowCount name).text = .ok ⟨["n"], [[.integer 0]]⟩ ∧
        db'.query (Sql.Statement.allColumns name).text = .ok ⟨kept.map ServedColumn.name, []⟩ := by
  obtain ⟨hinit, -⟩ := get?_addEach rfl hadditions
  have hentry := writable_of_addEach hadditions hnames hlength
  have hwritable := fun entry hmem => (hentry entry hmem).1
  have hlengths := fun entry hmem => (hentry entry hmem).2
  have hcreate := fun engine => @createAll_eq_ok db.manifest engine hwritable hlengths
  refine ⟨?_, ?_, ?_⟩
  · constructor
    · rintro ⟨db', hstart⟩
      obtain ⟨-, engine, hengine, -⟩ := start_eq_ok.mp hstart
      exact ((hcreate engine).mp hengine).1
    · intro h
      exact ⟨_, start_eq_ok.mpr ⟨hinit, _, (hcreate _).mpr ⟨h, rfl⟩, rfl⟩⟩
  · intro e hstart
    by_cases h : ToldApart db.manifest
    · rw [start_eq_ok.mpr ⟨hinit, _, (hcreate _).mpr ⟨h, rfl⟩, rfl⟩] at hstart
      cases hstart
    · rw [start_eq_error_of_not_toldApart hinit hwritable hlengths h] at hstart
      cases hstart
      rfl
  · intro db' hstart name columns hget
    obtain ⟨-, engine, hengine, rfl⟩ := start_eq_ok.mp hstart
    obtain ⟨h, rfl⟩ := (hcreate engine).mp hengine
    have hmem : (name, columns) ∈ db.manifest.entries := KeyMap.mem_entries_iff.mpr hget
    have happart := h.columns _ hmem
    have hrelation := Sql.Engine.relation?_of_mem (e := ⟨db.manifest.entries.map relationOf⟩)
      (nodup_relations.mpr h.tables) (List.mem_map_of_mem hmem)
    have hsound : Sql.Sound name.toList := (hwritable _ hmem).name
    refine ⟨keepFirst [] columns, keepFirst_sublist [] columns, ?_, ?_, hrelation, ?_, ?_⟩
    · exact fun c => mem_keepFirst_iff_fold happart
    · exact nodup_fold_keepFirst.mpr happart
    · rw [query_of_engine rfl]
      exact Sql.Engine.query_rowCount hsound hrelation
    · rw [query_of_engine rfl, Sql.Engine.query_allColumns hsound hrelation, relationOf, List.map_map]
      rfl

/-! ## A name that comes twice, and one that comes in two cases -/

/-- A table of files that has a column of its base schema once more in an extension, with another type. -/
def fileAddition : Table × List String :=
  ({ name := "file"
     schema := some { columns := [{ name := "path", typeName := "TEXT" }, { name := "size", typeName := "BIGINT" }] }
     extendedSchemas := .ofList
       [("linux", { columns := [{ name := "mode", typeName := "TEXT" }, { name := "size", typeName := "TEXT" }] })] },
    ["linux"])

/-- What it is served with. -/
def fileColumns : List ServedColumn :=
  [⟨"path", "file", .text, true⟩, ⟨"size", "file", .int64, true⟩, ⟨"mode", "file", .text, true⟩,
    ⟨"size", "file", .text, true⟩]

theorem start_iff_toldApart_file :
    (new "osquery").addEach [fileAddition] = .ok ((new "osquery").enter "file" fileColumns) ∧
    ∃ db', ((new "osquery").enter "file" fileColumns).start = .ok db' ∧
      db'.query (Sql.Statement.rowCount "file").text = .ok ⟨["n"], [[.integer 0]]⟩ ∧
      ∃ kept : List ServedColumn,
        db'.query (Sql.Statement.allColumns "file").text = .ok ⟨kept.map ServedColumn.name, []⟩ ∧
        ⟨"size", "file", .int64, true⟩ ∈ kept ∧ ⟨"size", "file", .text, true⟩ ∉ kept := by
  have hadd : (new "osquery").addEach [fileAddition] = .ok ((new "osquery").enter "file" fileColumns) := by
    decide +kernel
  obtain ⟨hstart, -, hserves⟩ := start_iff_toldApart hadd (by decide +kernel) (by decide +kernel)
  obtain ⟨db', hdb'⟩ := hstart.mpr ⟨by decide +kernel, by decide +kernel, by decide +kernel⟩
  obtain ⟨kept, -, hkept, -, -, hcount, hall⟩ := hserves db' hdb' "file" fileColumns (by decide +kernel)
  refine ⟨hadd, db', hdb', hcount, kept, hall, ?_, ?_⟩
  · rw [hkept]
    decide +kernel
  · rw [hkept]
    decide +kernel

/-- A table with two columns whose names differ in case only. -/
def casesAddition : Table × List String :=
  ({ name := "t"
     schema := some { columns := [{ name := "a", typeName := "TEXT" }, { name := "A", typeName := "TEXT" }] } }, [])

/-- What it is served with. -/
def casesColumns : List ServedColumn := [⟨"a", "t", .text, true⟩, ⟨"A", "t", .text, true⟩]

/-- Only columns with the very same name are merged. Another one whose name differs in case is left to the engine,
    which takes it for the same name and turns the table away. -/
theorem start_fails_on_case :
    isPlainName casesAddition.1.name = true ∧
    (∀ c ∈ casesAddition.1.columnsFor casesAddition.2, isPlainName c.name = true) ∧
    (casesAddition.1.columnsFor casesAddition.2).length ≤ Sql.maxColumns ∧
    (new "osquery").addEach [casesAddition] = .ok ((new "osquery").enter "t" casesColumns) ∧
    ((new "osquery").enter "t" casesColumns).start = .error .storage := by
  have hentries : ((new "osquery").enter "t" casesColumns).manifest.entries = [("t", casesColumns)] := by
    decide +kernel
  refine ⟨by decide +kernel, by decide +kernel, by decide +kernel, by decide +kernel, ?_⟩
  apply start_eq_error_of_not_toldApart rfl
  · rw [hentries]
    intro entry hentry
    obtain rfl := List.mem_singleton.mp hentry
    exact ⟨by decide +kernel, by decide +kernel, by decide +kernel⟩
  · rw [hentries]
    decide +kernel
  · intro h
    have hlower : Sql.fold "a" = "a" := by decide +kernel
    have hupper : Sql.fold "A" = "a" := by decide +kernel
    have hsame := h.columns ("t", casesColumns) (hentries ▸ List.mem_singleton_self _) ⟨"a", "t", .text, true⟩
      (by simp [casesColumns]) ⟨"A", "t", .text, true⟩ (by simp [casesColumns]) (hlower.trans hupper.symm)
    exact absurd hsame (by decide)

end Database
end TableSpec
