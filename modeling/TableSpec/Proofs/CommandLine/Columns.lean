import TableSpec.CommandLine
import TableSpec.Proofs.Database.Serving
import TableSpec.Proofs.Extraction.Extensions

/-!
# `Proofs.CommandLine.Columns` — the columns that are shown and those that are served

For an operating system a table is shown with every extension that names the system, one after the other under the
platforms that they are registered for. It is served with one extension, the one that is registered for the system.
An extension that names several platforms is registered for each of them, so it is shown more than once, and an
extension that a later one has replaced for the system may still be there for another platform.

Both sides show the same columns just when this does no harm: when no extension that is registered for another
platform, and names the system, has columns (`names_listed_iff`).

## Contents
- `Does`: steps that end well, with one lemma for each step. `does_showTables`: what is written.
- `listedColumns`, `OthersSilent`, `names_listed_iff`: the columns that are shown, compared with those on a platform.
- `listing_agrees_iff`: the comparison for recorded catalogs. `listing_repeats_posix`: where they differ.
-/

namespace TableSpec
namespace CommandLine

/-! ## Steps -/

section

variable {α β : Type} {t t' t'' : Transcript}

/-- A step ends well with a result, and makes a transcript out of another one. -/
def Does (step : Step α) (t : Transcript) (a : α) (t' : Transcript) : Prop := step.run.run t = (.ok a, t')

theorem does_pure (a : α) (t : Transcript) : Does (pure a) t a t := rfl

/-- Two steps, one after the other. -/
theorem Does.bind {step : Step α} {next : α → Step β} {a : α} {b : β} (h : Does step t a t')
    (h' : Does (next a) t' b t'') : Does (step >>= next) t b t'' := by
  unfold Does at h h' ⊢
  rw [ExceptT.run_bind, StateT.run_bind, h]
  exact h'

theorem does_printLine (text : String) (t : Transcript) :
    Does (printLine text) t () { t with output := t.output ++ text ++ "\n" } := rfl

theorem does_tell (text : String) (timed : Bool) (t : Transcript) :
    Does (tell text timed) t () { t with statuses := t.statuses ++ [⟨text, timed⟩] } := rfl

theorem does_ofLibrary {a : α} {r : Except Error α} (h : r = .ok a) (t : Transcript) :
    Does (ofLibrary r) t a t := by
  subst h
  rfl

theorem does_required {a : α} {o : Option α} (h : o = some a) (message : String) (t : Transcript) :
    Does (required o message) t a t := by
  subst h
  rfl

end

/-! ## What is written of a table -/

/-- Texts, one after the other. -/
def joined (texts : List String) : String := texts.foldr (· ++ ·) ""

/-- What is left out is as good as an empty text. -/
theorem joined_filter {ι : Type} (p : ι → Bool) (text : ι → String) (items : List ι) :
    joined (items.map (fun i => if p i then text i else "")) = joined ((items.filter p).map text) := by
  induction items with
  | nil => rfl
  | cons i rest ih =>
    unfold joined at ih ⊢
    rw [List.map_cons, List.foldr_cons, ih]
    by_cases hi : p i = true
    · rw [List.filter_cons_of_pos hi, if_pos hi, List.map_cons, List.foldr_cons]
    · rw [List.filter_cons_of_neg hi, if_neg hi, String.empty_append]

/-- Items that each write a text. -/
theorem does_forIn {ι : Type} {body : ι → PUnit → Step (ForInStep PUnit)} {text : ι → String}
    (hbody : ∀ i t, Does (body i PUnit.unit) t (.yield PUnit.unit) { t with output := t.output ++ text i })
    (items : List ι) (t : Transcript) :
    Does (forIn items PUnit.unit body) t PUnit.unit { t with output := t.output ++ joined (items.map text) } := by
  induction items generalizing t with
  | nil =>
    rw [List.forIn_nil]
    unfold Does joined
    rw [List.map_nil, List.foldr_nil, String.append_empty]
    rfl
  | cons i rest ih =>
    rw [List.forIn_cons]
    refine (hbody i t).bind ?_
    have hrest := ih { t with output := t.output ++ text i }
    have houtput : t.output ++ joined ((i :: rest).map text) = t.output ++ text i ++ joined (rest.map text) := by
      unfold joined
      rw [List.map_cons, List.foldr_cons, String.append_assoc]
    rw [houtput]
    exact hrest

/-- What is written of a schema: its heading and its columns. -/
def schemaText (e : SchemaPlace × Schema) : String :=
  placeHeading e.1 ++ "\n" ++ Listing.ofColumns e.2.columns ++ "\n"

/-- The schemas of a table that are shown for an operating system. -/
def shownSchemas (t : Table) (system : Option String) : List (SchemaPlace × Schema) :=
  t.schemas.filter (fun e => isShown system e.1 e.2)

/-- What is written of a table: its description, if it has one, and the schemas that are shown. -/
def tableText (t : Table) (system : Option String) : String :=
  (if t.description.isEmpty then "" else t.description ++ "\n") ++
    joined ((shownSchemas t system).map schemaText)

theorem does_showTable (o : OwnedTable) (system : Option String) (t : Transcript) :
    Does (showTable o system) t () { t with
      output := t.output ++ tableText o.table system
      statuses := t.statuses ++ [⟨"📋 " ++ o.table.name ++ " (" ++ o.owner.key ++ ")", false⟩] } := by
  unfold showTable
  refine (does_tell _ _ t).bind ?_
  have hschemas : ∀ t : Transcript, Does (forIn o.table.schemas PUnit.unit fun e _ =>
        if isShown system e.1 e.2 = true then do
          printLine (placeHeading e.1)
          printLine (Listing.ofColumns e.2.columns)
          pure (ForInStep.yield PUnit.unit)
        else pure (ForInStep.yield PUnit.unit)) t PUnit.unit
      { t with output := t.output ++ joined ((shownSchemas o.table system).map schemaText) } := by
    intro t
    unfold shownSchemas
    rw [← joined_filter]
    apply does_forIn
    intro e t
    by_cases hshown : isShown system e.1 e.2 = true
    · rw [if_pos hshown, if_pos hshown]
      refine (does_printLine _ t).bind ((does_printLine _ _).bind ?_)
      unfold schemaText
      simp only [String.append_assoc]
      exact does_pure _ _
    · rw [if_neg hshown, if_neg hshown, String.append_empty]
      exact does_pure _ _
  unfold tableText
  cases hdescription : o.table.description.isEmpty with
  | true =>
    simp only [Bool.not_true, Bool.false_eq_true, if_false, if_true, String.empty_append]
    exact (hschemas _).bind (does_pure _ _)
  | false =>
    simp only [Bool.not_false, Bool.false_eq_true, if_false, if_true, String.append_assoc]
    refine (does_printLine _ _).bind ?_
    have houtput :
        t.output ++ (o.table.description ++ ("\n" ++ joined ((shownSchemas o.table system).map schemaText))) =
        t.output ++ o.table.description ++ "\n" ++ joined ((shownSchemas o.table system).map schemaText) := by
      simp only [String.append_assoc]
    rw [houtput]
    exact (hschemas _).bind (does_pure _ _)

/-- Asking for one table of an operating system shows the first one of its name. -/
theorem does_showTables {config : Config} {schema specsDir : Option String} {system name : String} {c : Catalog}
    {row : List String} {o : OwnedTable} {t t' : Transcript} (hc : Does (obtain schema specsDir config) t c t')
    (hrow : (system, row) ∈ Platform.operatingSystems)
    (ho : (c.tablesIn row).find? (fun o => o.table.name = name) = some o) :
    Does (showTables config schema specsDir none (some system) (some name)) t () { t' with
      output := t'.output ++ tableText o.table (some system)
      statuses := t'.statuses ++ [⟨"📋 " ++ o.table.name ++ " (" ++ o.owner.key ++ ")", false⟩] } := by
  unfold showTables
  refine hc.bind ?_
  refine (does_ofLibrary (Catalog.tablesForSystem_of_listed hrow) t').bind ?_
  exact (does_required ho _ t').bind (does_showTable o (some system) t')

/-! ## The columns that are shown -/

/-- The columns that are shown of a table, schema by schema. -/
def listedColumns (t : Table) (system : String) : List Column :=
  (shownSchemas t (some system)).flatMap (fun e => e.2.columns)

/-- The columns of the base schema come first, then those of each extension for the system. -/
theorem listedColumns_eq (t : Table) (system : String) :
    listedColumns t system = (t.schema.map Schema.columns).getD [] ++
      (t.extendedSchemas.entries.filter (fun e => e.2.appliesTo system)).flatMap (fun e => e.2.columns) := by
  unfold listedColumns shownSchemas Table.schemas
  rw [List.filter_append, List.flatMap_append]
  congr 1
  · cases t.schema with
    | none => rfl
    | some s => simp [isShown]
  · rw [List.filter_map, List.flatMap_map]
    rfl

variable {t : Table} {system : String}

/-- An extension that is registered for a platform applies to it. -/
theorem appliesTo_of_mem {s : Schema} (h : system ∈ s.platforms) : s.appliesTo system = true := by
  simp [Schema.appliesTo, h]

/-- A schema that names platforms applies to those only. -/
theorem mem_of_appliesTo {s : Schema} {platform : String} (hplatform : platform ∈ s.platforms)
    (h : s.appliesTo system = true) : system ∈ s.platforms := by
  unfold Schema.appliesTo at h
  rcases Bool.or_eq_true_iff.mp h with hempty | hmem
  · -- there is a platform among them
    have hnil : s.platforms.toList = [] := List.isEmpty_iff.mp hempty
    rw [← KeySet.mem_toList, hnil] at hplatform
    cases hplatform
  · exact of_decide_eq_true hmem

/-- Extensions for other platforms that name the system have no columns. -/
def OthersSilent (t : Table) (system : String) : Prop :=
  ∀ platform s, t.extendedSchemas.get? platform = some s → platform ≠ system → system ∈ s.platforms →
    s.columns = []

/-- Some extensions are shown without columns just when each of them has none. -/
theorem flatMap_columns_eq_nil {entries : List (String × Schema)} :
    (entries.filter (fun e => e.2.appliesTo system)).flatMap (fun e => e.2.columns) = [] ↔
      ∀ e ∈ entries, e.2.appliesTo system = true → e.2.columns = [] := by
  rw [List.flatMap_eq_nil_iff]
  constructor
  · intro h e he happlies
    exact h e (List.mem_filter.mpr ⟨he, happlies⟩)
  · intro h e he
    exact h e (List.mem_filter.mp he).1 (List.mem_filter.mp he).2

/-- The extensions for other platforms, among those with the given keys. -/
theorem othersSilent_iff (h : t.Registered) : OthersSilent t system ↔
    ∀ e ∈ t.extendedSchemas.entries, e.1 ≠ system → e.2.appliesTo system = true → e.2.columns = [] := by
  constructor
  · intro hsilent e he hne happlies
    have hget := KeyMap.mem_entries_iff.mp he
    exact hsilent e.1 e.2 hget hne (mem_of_appliesTo (h e.1 e.2 hget) happlies)
  · intro hsilent platform s hget hne hmem
    exact hsilent (platform, s) (KeyMap.mem_entries_iff.mpr hget) hne (appliesTo_of_mem hmem)

/-- What stands around a list makes a difference unless it is nothing, since it makes the list longer. -/
theorem map_eq_map_middle_iff {α β : Type} {f : α → β} {before middle after : List α} :
    (before ++ (middle ++ after)).map f = middle.map f ↔ before = [] ∧ after = [] := by
  constructor
  · intro h
    have hlength := congrArg List.length h
    simp only [List.length_map, List.length_append] at hlength
    exact ⟨List.length_eq_zero_iff.mp (by omega), List.length_eq_zero_iff.mp (by omega)⟩
  · rintro ⟨rfl, rfl⟩
    rw [List.nil_append, List.append_nil]

/-- **The names that are shown are those on the platform just when the other extensions are silent.** The extension
    for the system is among those that are shown, so there is no room for columns of another one. -/
theorem names_listed_iff (h : t.Registered) :
    (listedColumns t system).map Column.name = (t.columnsOn system).map Column.name ↔ OthersSilent t system := by
  unfold Table.columnsOn
  rw [listedColumns_eq, List.map_append, List.map_append, List.append_cancel_left_eq, othersSilent_iff h]
  cases hslot : t.extendedSchemas.get? system with
  | none =>
    rw [Option.map_none, Option.getD_none, List.map_nil, List.map_eq_nil_iff, flatMap_columns_eq_nil]
    constructor
    · exact fun hnil e he _ => hnil e he
    · intro hsilent e he
      apply hsilent e he
      rintro rfl
      rw [KeyMap.mem_entries_iff.mp he] at hslot
      cases hslot
  | some s =>
    obtain ⟨before, after, hentries⟩ := List.append_of_mem (KeyMap.mem_entries_iff.mpr hslot)
    have happlies : s.appliesTo system = true := appliesTo_of_mem (h system s hslot)
    have hsorted := t.extendedSchemas.sorted
    rw [hentries] at hsorted ⊢
    obtain ⟨-, hafter, hbefore⟩ := List.pairwise_append.mp hsorted
    have hothers : ∀ e ∈ before ++ after, e.1 ≠ system := by
      intro e he heq
      rcases List.mem_append.mp he with he | he
      · exact String.lt_irrefl _ (heq ▸ hbefore e he _ List.mem_cons_self)
      · exact String.lt_irrefl _ (heq ▸ (List.pairwise_cons.mp hafter).1 e he)
    have hfilter : ((system, s) :: after).filter (fun e => e.2.appliesTo system) =
        (system, s) :: after.filter (fun e => e.2.appliesTo system) := List.filter_cons_of_pos happlies
    rw [List.filter_append, hfilter, List.flatMap_append, List.flatMap_cons, Option.map_some, Option.getD_some]
    rw [map_eq_map_middle_iff, flatMap_columns_eq_nil, flatMap_columns_eq_nil]
    constructor
    · rintro ⟨hbeforeNil, hafterNil⟩ e he hne happlies'
      rcases List.mem_append.mp he with he | he
      · exact hbeforeNil e he happlies'
      · rcases List.mem_cons.mp he with rfl | he
        · exact absurd rfl hne
        · exact hafterNil e he happlies'
    · intro hsilent
      constructor
      · intro e he
        exact hsilent e (List.mem_append_left _ he) (hothers e (List.mem_append_left _ he))
      · intro e he
        exact hsilent e (List.mem_append_right _ (List.mem_cons_of_mem _ he))
          (hothers e (List.mem_append_right _ he))

/-! ## Recorded catalogs -/

/-- **When listing and serving agree.** Take a catalog of tables that are extracted from source texts and recorded,
    an operating system, and a table that is the only one of its name for it; and let the engine know all types.
    Asking for the table on the command line writes what `tableText` says, of which the columns are
    `listedColumns`. The database of the catalog has the table registered with its columns for the system, if it
    has any. The names of the two are the same, one by one, just when the extensions for other platforms that name
    the system have no columns. -/
theorem listing_agrees_iff {sources : List LocatedTable} {system name : String} {row : List String}
    {o : OwnedTable}
    (hsources : ∀ s ∈ sources, ∃ stem origin text, Table.ofSource stem origin text = .ok s.table)
    (hrow : (system, row) ∈ Platform.operatingSystems)
    (honce : ((Catalog.empty.recordEach sources).tablesIn row).filter (fun o => o.table.name = name) = [o])
    (hknown : ∀ o' ∈ (Catalog.empty.recordEach sources).tablesIn row,
      firstUnknown? (o'.table.columnsOn system) = none) :
    (∀ config schema specsDir t t', Does (obtain schema specsDir config) t (Catalog.empty.recordEach sources) t' →
      ∃ t'', Does (showTables config schema specsDir none (some system) (some name)) t () t'' ∧
        t''.output = t'.output ++ tableText o.table (some system)) ∧
    ∃ (db : Database) (columns : List ServedColumn),
      Database.ofCatalog (Catalog.empty.recordEach sources) system = db.start ∧
      o.table.servedColumns [system] = .ok columns ∧
      (∀ registered, db.schema? name = some registered ↔ registered = columns ∧ columns ≠ []) ∧
      ((listedColumns o.table system).map Column.name = columns.map ServedColumn.name ↔
        OthersSilent o.table system) := by
  have hmem : o ∈ (Catalog.empty.recordEach sources).tablesIn row := by
    apply List.mem_of_mem_filter (p := fun o => o.table.name = name)
    rw [honce]
    exact List.mem_singleton_self o
  have hregistered : o.table.Registered := by
    obtain ⟨s, hs, key, hsource⟩ := Catalog.exists_source_of_mem_tablesIn hmem
    obtain ⟨stem, origin, text, htext⟩ := hsources s hs
    have hextended : s.table.Registered := Table.registered_of_ofSource htext
    rw [hsource]
    exact hextended
  refine ⟨?_, ?_⟩
  · intro config schema specsDir t t' hc
    refine ⟨_, does_showTables hc hrow (o := o) ?_, rfl⟩
    rw [← List.head?_filter, honce]
    rfl
  · obtain ⟨db, hdb, -, hmanifest⟩ := Database.ofCatalog_of_known hrow hknown
    obtain ⟨columns, hcolumns, hnames⟩ := Table.servedColumns_of_known (hknown o hmem)
    refine ⟨db, columns, hdb, hcolumns, ?_, ?_⟩
    · intro registered
      show db.manifest.get? name = some registered ↔ _
      rw [hmanifest, honce]
      constructor
      · rintro ⟨o', ho', hserved, hne⟩
        obtain rfl : o = o' := by simpa using ho'
        rw [hcolumns] at hserved
        cases hserved
        exact ⟨rfl, hne⟩
      · rintro ⟨rfl, hne⟩
        exact ⟨o, rfl, hcolumns, hne⟩
    · rw [hnames]
      exact names_listed_iff hregistered

/-! ## One extension on one platform, and on three -/

/-- The text of a table of files with an extension for a category of platforms. -/
def extendedFileText (category : String) : String :=
  "schema([Column(\"path\", TEXT, \"\")])\nextended_schema(" ++ category ++ ", [Column(\"mode\", TEXT, \"\")])\n"

/-- The table of files with an extension that is registered for some platforms. -/
def extendedFile (platforms : List String) : Table where
  name := "file"
  schema := some { columns := [{ name := "path", typeName := "TEXT" }] }
  extendedSchemas := .ofList (platforms.map (fun p =>
    (p, { platforms := .ofList platforms, extended := true, columns := [{ name := "mode", typeName := "TEXT" }] })))

/-- The one file of a catalog, in the directory that applies to all operating systems. -/
def locatedFile (platforms : List String) : LocatedTable := ⟨"specs/specs/file.table", extendedFile platforms⟩

/-- The table as it is recorded. -/
def ownedFile (platforms : List String) : OwnedTable :=
  ⟨{ key := "specs", name := "All Platforms", tables :=
      .ofList [("file", { extendedFile platforms with namespaceId := "specs" })] },
    { extendedFile platforms with namespaceId := "specs" }⟩

theorem listing_agrees_iff_linux :
    Table.ofSource "file" "file.table" (extendedFileText "LINUX") = .ok (extendedFile ["linux"]) ∧
    (∀ config schema specsDir t t',
      Does (obtain schema specsDir config) t (Catalog.empty.recordEach [locatedFile ["linux"]]) t' →
      ∃ t'', Does (showTables config schema specsDir none (some "linux") (some "file")) t () t'' ∧
        t''.output = t'.output ++ tableText (ownedFile ["linux"]).table (some "linux")) ∧
    (listedColumns (ownedFile ["linux"]).table "linux").map Column.name = ["path", "mode"] ∧
    ∃ columns, (ownedFile ["linux"]).table.servedColumns ["linux"] = .ok columns ∧
      columns.map ServedColumn.name = ["path", "mode"] := by
  have htext : Table.ofSource "file" "file.table" (extendedFileText "LINUX") = .ok (extendedFile ["linux"]) := by
    decide +kernel
  have hsources : ∀ s ∈ [locatedFile ["linux"]],
      ∃ stem origin text, Table.ofSource stem origin text = .ok s.table := by
    intro s hs
    obtain rfl := List.mem_singleton.mp hs
    exact ⟨_, _, _, htext⟩
  obtain ⟨hlisting, db, columns, -, hcolumns, -, hagree⟩ :=
    @listing_agrees_iff _ "linux" "file" _ (ownedFile ["linux"]) hsources (Platform.directoriesFor_eq_ok.mp rfl)
      (by decide +kernel) (by decide +kernel)
  have hlisted : (listedColumns (ownedFile ["linux"]).table "linux").map Column.name = ["path", "mode"] := by
    decide +kernel
  refine ⟨htext, hlisting, hlisted, columns, hcolumns, ?_⟩
  rw [← hlisted]
  refine (hagree.mpr ?_).symm
  -- there is no platform but the one
  intro platform s hget hne
  have hentries : (ownedFile ["linux"]).table.extendedSchemas.entries.map Prod.fst = ["linux"] := by decide +kernel
  have hmem := List.mem_map_of_mem (f := Prod.fst) (KeyMap.mem_entries_iff.mpr hget)
  rw [hentries] at hmem
  exact absurd (List.mem_singleton.mp hmem) hne

/-- An extension for three platforms is registered three times. All three name the operating system and are shown
    for it, but the table is served with one of them. -/
theorem listing_repeats_posix :
    Table.ofSource "file" "file.table" (extendedFileText "POSIX") =
      .ok (extendedFile ["darwin", "freebsd", "linux"]) ∧
    (Catalog.empty.recordEach [locatedFile ["darwin", "freebsd", "linux"]]).tablesForSystem "linux" =
      .ok [ownedFile ["darwin", "freebsd", "linux"]] ∧
    firstUnknown? ((ownedFile ["darwin", "freebsd", "linux"]).table.columnsOn "linux") = none ∧
    (listedColumns (ownedFile ["darwin", "freebsd", "linux"]).table "linux").map Column.name =
      ["path", "mode", "mode", "mode"] ∧
    (ownedFile ["darwin", "freebsd", "linux"]).table.servedColumns ["linux"] =
      .ok [⟨"path", "file", .text, true⟩, ⟨"mode", "file", .text, true⟩] := by
  decide +kernel

end CommandLine
end TableSpec
