import TableSpec.Proofs.Extraction.Extensions
import TableSpec.Proofs.Extraction.Schema
import TableSpec.Proofs.Platform.Disjunction
import TableSpec.Proofs.Source.Chains
import TableSpec.Proofs.Source.Walk
import TableSpec.Proofs.Table.Columns

/-!
# `Proofs.Extraction.Registration` — every extension of a file is for some platform

A table keeps an extension only under the platforms that it names, so one that names none would be lost. None
does: no category is without platforms, and a source text has no disjunction without operands. So an extension of
a file is in its table, unless later ones have taken all of its platforms.

## Contents
- `mem_walk_of_mem_calls`: where the calls of a file's declarations are.
- `Schema.IsExtension`: what an extension is known by. `isExtension_of_ofCall`, `base_of_ofCall`.
- `lastExtension`: the extension for a platform. `last_or_later`, `Declares.columnsOn_eq`.
- `Table.WellRegistered`, `wellRegistered_of_ofSource`.
-/

namespace TableSpec

variable {node : Node} {call : Call} {form : Form} {s : Schema} {ds : List Declaration}

/-! ## The calls of a file -/

/-- A call of a form is on the walk, and has the name of the form. -/
theorem mem_walk_of_mem_calls (h : call ∈ calls form (declarations node)) :
    call.node ∈ node.walk Node.isSearched ∧ call.calleeName? = some form.word := by
  obtain ⟨call', hwalk, hknown⟩ := exists_of_mem_declarations (mem_calls.mp h)
  obtain ⟨rfl, hname⟩ := Declaration.ofCall_eq_known.mp hknown
  exact ⟨hwalk, hname⟩

theorem wellChained_of_mem_calls (hnode : node.WellChained) (h : call ∈ calls form (declarations node)) :
    call.node.WellChained :=
  Node.forall_mem_walk (fun _ hparent => hparent.of_mem_children) hnode call.node (mem_walk_of_mem_calls h).1

/-! ## One schema -/

/-- What an extension is known by: it names platforms, all of them fixed ones, and numbers its columns. -/
structure Schema.IsExtension (s : Schema) : Prop where
  extended : s.extended = true
  named : ∃ platform, platform ∈ s.platforms
  listed : ∀ platform ∈ s.platforms, ∃ row ∈ Platform.categories, platform ∈ row.2
  indices : s.columns.map Column.index = List.range s.columns.length

/-- The argument that names the platforms is not a disjunction without operands. -/
theorem arg_ne_emptyChain (hcall : call.node.WellChained) {argument : Node} (harg : call.arg? 0 = some argument) :
    argument ≠ .lambda (.chain .or []) := by
  rintro rfl
  have hmem : Node.lambda (.chain .or []) ∈ call.node.children :=
    List.mem_cons_of_mem _ (List.mem_append_left _ (List.mem_of_getElem? harg))
  have hlambda := hcall.of_mem_children _ hmem
  have hchain := hlambda.of_mem_children _ (List.mem_singleton_self _)
  have hlength := hchain.two_le
  simp at hlength

/-- The schema of a well chained call for an extension is an extension. -/
theorem isExtension_of_ofCall (hcall : call.node.WellChained)
    (hname : call.calleeName? = some Form.extendedSchema.word) (h : Schema.ofCall call = .ok s) : s.IsExtension := by
  obtain ⟨callee, platforms, elements, hlists, hdeclared⟩ := Schema.declaredBy_of_ofCall h
  have hcallee : callee = "extended_schema" := Option.some.inj (hlists.opens.callee_eq.symm.trans hname)
  obtain ⟨argument, harg, hplatforms⟩ := hlists.opens.extended hcallee
  refine ⟨hdeclared.extended_iff.mpr hcallee, ?_, ?_, hdeclared.indices⟩
  · obtain ⟨platform, hplatform⟩ :=
      List.exists_mem_of_ne_nil platforms (Platform.ofArgument_ne_nil (arg_ne_emptyChain hcall harg) hplatforms)
    exact ⟨platform, (hdeclared.mem_platforms platform).mpr hplatform⟩
  · intro platform hplatform
    exact Platform.listed_of_ofArgument hplatforms platform ((hdeclared.mem_platforms platform).mp hplatform)

/-- The base schema of a file is for all platforms. -/
theorem base_of_ofCall (hname : call.calleeName? = some Form.schema.word) (h : Schema.ofCall call = .ok s) :
    s.extended = false ∧ s.platforms = .empty := by
  obtain ⟨callee, platforms, elements, hlists, hdeclared⟩ := Schema.declaredBy_of_ofCall h
  have hcallee : callee = "schema" := Option.some.inj (hlists.opens.callee_eq.symm.trans hname)
  have hne : callee ≠ "extended_schema" := by
    rw [hcallee]
    decide
  constructor
  · exact Bool.eq_false_iff.mpr fun hextended => hne (hdeclared.extended_iff.mp hextended)
  · apply KeySet.ext_mem
    intro platform
    rw [hdeclared.mem_platforms, hlists.opens.base hne]
    simp

/-! ## All extensions of a file -/

/-- The last extension that names a platform. -/
def lastExtension (ds : List Declaration) (platform : String) : Option Schema :=
  ((extensions ds).filter (fun s => platform ∈ s.platforms)).getLast?

/-- Where every call for an extension declares one, the extensions are those of all these calls. -/
theorem map_ofCall_extensions (hds : ∀ d ∈ ds, d.Accepted) :
    (calls .extendedSchema ds).map Schema.ofCall = (extensions ds).map .ok := by
  have hall : ∀ call ∈ calls .extendedSchema ds, ∃ s, Schema.ofCall call = .ok s :=
    fun _ hcall => (hds _ (mem_calls.mp hcall)).2.2 (Or.inr rfl)
  unfold extensions
  generalize calls .extendedSchema ds = extensionCalls at hall
  induction extensionCalls with
  | nil => rfl
  | cons call rest ih =>
    obtain ⟨s, hs⟩ := hall call List.mem_cons_self
    rw [List.map_cons, List.filterMap_cons, schema?_eq_some.mpr hs, hs,
      ih fun c hc => hall c (List.mem_cons_of_mem call hc)]
    rfl

theorem isExtension_of_mem_extensions (hnode : node.WellChained) (h : s ∈ extensions (declarations node)) :
    s.IsExtension := by
  obtain ⟨call, hcall, hs⟩ := List.mem_filterMap.mp h
  exact isExtension_of_ofCall (wellChained_of_mem_calls hnode hcall) (mem_walk_of_mem_calls hcall).2 (schema?_eq_some.mp hs)

/-- An extension is the last one for a platform that it names, unless a later one names this platform too. -/
theorem last_or_later {before after : List Schema} {platform : String} (h : extensions ds = before ++ s :: after)
    (hplatform : platform ∈ s.platforms) :
    lastExtension ds platform = some s ∨ ∃ later ∈ after, platform ∈ later.platforms := by
  by_cases hlater : ∃ later ∈ after, platform ∈ later.platforms
  · exact Or.inr hlater
  · left
    have hnone : after.filter (fun s => platform ∈ s.platforms) = [] := by
      apply List.filter_eq_nil_iff.mpr
      intro later hmem hnames
      exact hlater ⟨later, hmem, of_decide_eq_true hnames⟩
    unfold lastExtension
    rw [h, List.filter_append, List.filter_cons_of_pos (by simpa using hplatform), hnone]
    exact List.getLast?_concat

namespace Table

variable {name origin text : String} {t : Table}

/-- The extensions of a table, and its base schema, are as its declarations say. -/
structure WellRegistered (ds : List Declaration) (t : Table) : Prop where
  /-- What is registered under a platform is an extension that names it. -/
  entries : ∀ platform s, t.extendedSchemas.get? platform = some s → s.IsExtension ∧ platform ∈ s.platforms
  /-- The base schema is for all platforms. -/
  base : ∀ s, t.schema = some s → s.extended = false ∧ s.platforms = .empty
  /-- Every call for an extension declares one. -/
  calls_eq : (calls .extendedSchema ds).map Schema.ofCall = (extensions ds).map .ok
  /-- Every extension names a platform. -/
  named : ∀ s ∈ extensions ds, ∃ platform, platform ∈ s.platforms
  /-- An extension is registered under a platform that it names, unless a later one names it too. -/
  registered : ∀ before s after, extensions ds = before ++ s :: after → ∀ platform ∈ s.platforms,
    t.extendedSchemas.get? platform = some s ∨ ∃ later ∈ after, platform ∈ later.platforms
  /-- A platform is served with the columns of the base schema and of the last extension that names it. -/
  served : ∀ platform,
    let columns := (t.schema.map Schema.columns).getD [] ++
      ((lastExtension ds platform).map Schema.columns).getD []
    (∀ c ∈ columns, (EngineType.ofWord? c.typeName).isSome = true) →
      ∃ served, t.servedColumns [platform] = .ok served ∧
        served.map ServedColumn.name = columns.map Column.name

theorem Declares.columnsOn_eq (h : Declares name ds t) (platform : String) :
    t.columnsOn platform = (t.schema.map Schema.columns).getD [] ++
      ((lastExtension ds platform).map Schema.columns).getD [] := by
  unfold columnsOn lastExtension
  rw [h.extendedSchemas_eq]

/-- **The extensions of a file are well registered.** Whatever text makes a table, what the table has under a
    platform is an extension for it, and nothing that a file declares for some platform is without effect unless it
    is declared again. -/
theorem wellRegistered_of_ofSource (h : ofSource name origin text = .ok t) :
    ∃ node, Source.parse origin text = .ok node ∧ t.WellRegistered (declarations node) := by
  obtain ⟨node, hparse, hnode⟩ := bind_eq_ok.mp h
  have hchained : node.WellChained := Source.wellChained_of_parse hparse
  have hdeclares : Declares name (declarations node) t := declares_of_ofNode hnode
  have haccepted : ∀ d ∈ declarations node, d.Accepted := (acceptable_of_ofNode hnode).1
  refine ⟨node, hparse, ?_, ?_, map_ofCall_extensions haccepted, ?_, ?_, ?_⟩
  · intro platform s hget
    rw [hdeclares.extendedSchemas_eq] at hget
    obtain ⟨hmem, hnames⟩ := List.mem_filter.mp (List.mem_of_getLast? hget)
    exact ⟨isExtension_of_mem_extensions hchained hmem, of_decide_eq_true hnames⟩
  · intro s hs
    rw [hdeclares.schema_eq] at hs
    obtain ⟨call, hhead, hschema⟩ := Option.bind_eq_some_iff.mp hs
    exact base_of_ofCall (mem_walk_of_mem_calls (List.mem_of_head? hhead)).2 (schema?_eq_some.mp hschema)
  · intro s hs
    exact (isExtension_of_mem_extensions hchained hs).named
  · intro before s after hextensions platform hplatform
    rw [hdeclares.extendedSchemas_eq]
    exact last_or_later hextensions hplatform
  · intro platform columns hknown
    have hcolumns : t.columnsOn platform = columns := hdeclares.columnsOn_eq platform
    rw [← hcolumns]
    apply servedColumns_of_known
    apply List.find?_eq_none.mpr
    intro c hc
    have hsome := hknown c (hcolumns ▸ hc)
    simp [Option.isNone_iff_eq_none, Option.isSome_iff_ne_none.mp hsome]

/-- A file with an extension for two platforms and another one for one of them. -/
def overlappingText : String :=
  "schema([Column(\"name\", TEXT)])\n" ++
  "extended_schema(lambda: LINUX() or DARWIN(), [Column(\"mode\", TEXT)])\n" ++
  "extended_schema(LINUX, [Column(\"inode\", BIGINT)])\n"

/-- The schema with one column. -/
def oneColumn (platforms : List String) (name typeName : String) : Schema where
  platforms := .ofList platforms
  extended := !platforms.isEmpty
  columns := [{ name := name, typeName := typeName }]

/-- The table of this file: the later extension has taken one of the two platforms. -/
def overlapping : Table where
  name := "file"
  schema := some (oneColumn [] "name" "TEXT")
  extendedSchemas := .ofList [("darwin", oneColumn ["linux", "darwin"] "mode" "TEXT"),
    ("linux", oneColumn ["linux"] "inode" "BIGINT")]

theorem wellRegistered_of_ofSource_overlapping :
    ofSource "file" "file.table" overlappingText = .ok overlapping ∧
    (∃ node, Source.parse "file.table" overlappingText = .ok node ∧ overlapping.WellRegistered (declarations node)) ∧
    (overlapping.servedColumns ["linux"]).map (List.map ServedColumn.name) = .ok ["name", "inode"] ∧
    (overlapping.servedColumns ["darwin"]).map (List.map ServedColumn.name) = .ok ["name", "mode"] := by
  have htext : ofSource "file" "file.table" overlappingText = .ok overlapping := by decide +kernel
  refine ⟨htext, wellRegistered_of_ofSource htext, ?_, ?_⟩
  · decide +kernel
  · decide +kernel

end Table
end TableSpec
