import Mathlib.Data.List.Nodup
import TableSpec.Proofs.Catalog.Reachable
import TableSpec.Proofs.InPlace

/-!
# `Proofs.Catalog.Owners` — who owns a table

A namespace knows its key and a table knows its name and the key of its namespace, although the places that
they are stored under say so already. Two writers that have nothing in common have to keep the two in
agreement: `Catalog.record` puts in one table and may have to make its namespace first, which can fail, and
`Catalog.inject` replaces whole namespaces and fills in what a document leaves out.

`Catalog.Linked` is the agreement. Both writers keep it (`linked_record`, `linked_inject`), hence every run of
them does, whatever fails on the way. Where it holds, what the look-ups and the listing of a catalog say of a
table is the same (`mem_tables_iff`), and no table is listed twice (`nodup_tables`).

## Contents
- `Catalog.recordInPlace`: recording as a change in place. `realizes_record`.
- `Catalog.Operation`, `Operation.WellPlaced`, `Catalog.after`.
- `Catalog.Linked`, `linked_record`, `linked_inject`, `linked_run`.
- `mem_tables_iff`, `nodup_tables`, `tableCount_eq_length`.
- `owner_links_agree`: all of it, for a run.
-/

namespace TableSpec
namespace Catalog

variable {c c' : Catalog} {path : String} {t : Table} {document : KeyMap Namespace}

/-! ## Recording in place -/

/-- The namespace for a directory, which is made and put in when it is not there. An unknown directory is an
    error of the file at `path`. -/
def ownerInPlace (path key : String) : InPlace Catalog Namespace := do
  let c ← get
  match c.namespace? key with
  | some ns => return ns
  | none =>
    let ns ← InPlace.ofResult ((Namespace.ofDirectory key).mapError (Error.within path))
    set (Catalog.mk (c.namespaces.insert key ns))
    return ns

theorem ownerInPlace_of_some {key : String} {ns : Namespace} (h : c.namespace? key = some ns) :
    (ownerInPlace path key).run c = (.ok ns, c) := by
  unfold ownerInPlace
  rw [InPlace.run_bind, InPlace.run_get]
  simp only [h, InPlace.run_pure]

/-- A namespace that is not there is made and put in, if its directory is known. -/
theorem ownerInPlace_of_none {key : String} (h : c.namespace? key = none) :
    (ownerInPlace path key).run c = match Namespace.ofDirectory key with
      | .ok ns => (.ok ns, ⟨c.namespaces.insert key ns⟩)
      | .error e => (.error (e.within path), c) := by
  unfold ownerInPlace
  rw [InPlace.run_bind, InPlace.run_get]
  simp only [h]
  rw [InPlace.run_bind, InPlace.run_ofResult]
  cases Namespace.ofDirectory key <;> rfl

/-- Put the table of the file at `path` into the namespace of its directory. -/
def recordInPlace (path : String) (t : Table) : InPlace Catalog Unit := do
  let ns ← ownerInPlace path (keyOf path)
  modify (fun c => ⟨c.namespaces.insert (keyOf path) (ns.insert t)⟩)

/-- Recording in place is recording: the namespace that is put in on the way stays only when the table goes
    into it. -/
theorem realizes_record (path : String) (t : Table) :
    InPlace.Realizes (recordInPlace path t) (fun c => c.record path t) := by
  intro c
  unfold recordInPlace
  rw [InPlace.run_bind]
  cases hns : c.namespace? (keyOf path) with
  | some ns =>
    have howner : c.owner? (keyOf path) = some ns := by simp [owner?, hns]
    rw [ownerInPlace_of_some hns, InPlace.outcome_of_ok (record_of_owner? howner)]
    rfl
  | none =>
    rw [ownerInPlace_of_none hns]
    cases hdir : Namespace.ofDirectory (keyOf path) with
    | ok ns =>
      have howner : c.owner? (keyOf path) = some ns := by simp [owner?, hns, hdir, Except.toOption]
      rw [InPlace.outcome_of_ok (record_of_owner? howner)]
      -- the table goes into the namespace that has just been put in
      show (Except.ok (), Catalog.mk ((c.namespaces.insert (keyOf path) ns).insert (keyOf path) (ns.insert t))) = _
      rw [KeyMap.insert_insert]
    | error e =>
      have hrecord : c.record path t = .error (e.within path) := by
        simp only [record, hns, hdir]
        rfl
      rw [InPlace.outcome_of_error hrecord]

/-! ## Runs -/

/-- What is done to a catalog. -/
inductive Operation where
  | record (path : String) (t : Table)
  | inject (document : KeyMap Namespace)

/-- The operation as a change in place. Taking over a document cannot fail. -/
def Operation.act : Operation → InPlace Catalog Unit
  | .record path t => recordInPlace path t
  | .inject document => modify (fun c => c.inject document)

/-- The catalog after an operation, which may have failed. -/
def after (c : Catalog) (op : Operation) : Catalog := (op.act.run c).2

end Catalog

/-- A table of a document has the keys of its place, or leaves them out. -/
def Table.WellPlaced (key name : String) (t : Table) : Prop :=
  (t.namespaceId ≠ "" → t.namespaceId = key) ∧ (t.name ≠ "" → t.name = name)

/-- A namespace of a document has the key of its place or leaves it out, and so do its tables. -/
def Namespace.WellPlaced (key : String) (ns : Namespace) : Prop :=
  (ns.key ≠ "" → ns.key = key) ∧ ∀ name t, ns.tables.get? name = some t → t.WellPlaced key name

/-- A document that is taken over is well placed. Of a table that is recorded nothing is asked. -/
def Catalog.Operation.WellPlaced : Catalog.Operation → Prop
  | .record _ _ => True
  | .inject document => ∀ key ns, document.get? key = some ns → ns.WellPlaced key

/-! ## The links -/

/-- A namespace knows the key that it is stored under, and its tables know that key and their names. -/
structure Namespace.Linked (key : String) (ns : Namespace) : Prop where
  key_eq : ns.key = key
  name_eq : ∀ name t, ns.tables.get? name = some t → t.name = name
  namespaceId_eq : ∀ name t, ns.tables.get? name = some t → t.namespaceId = ns.key

namespace Catalog

variable {c c' : Catalog} {path : String} {t : Table} {document : KeyMap Namespace}

/-- All namespaces of a catalog are linked to their keys. -/
def Linked (c : Catalog) : Prop := ∀ key ns, c.namespaces.get? key = some ns → ns.Linked key

theorem linked_empty : Linked empty := by
  intro key ns hget
  cases hget

/-- A table that is put in takes the key of the namespace, whatever key it had. -/
theorem linked_insert {key : String} {ns : Namespace} (h : ns.Linked key) (t : Table) :
    (ns.insert t).Linked key := by
  constructor
  · exact h.key_eq
  · exact insert_forall (Q := fun name t' => t'.name = name) h.name_eq rfl
  · exact insert_forall (Q := fun _ t' => t'.namespaceId = ns.key) h.namespaceId_eq rfl

/-- Recording keeps the links: the table is stored under its name, with the key of its namespace. -/
theorem linked_record (hc : c.Linked) (h : c.record path t = .ok c') : c'.Linked := by
  apply record_forall h hc
  · intro key ns hns
    obtain ⟨hkey, htables⟩ := ofDirectory_eq_ok hns
    constructor
    · exact hkey
    all_goals
      intro name t hget
      rw [htables] at hget
      cases hget
  · intro key ns hns
    exact linked_insert hns t

theorem orElse_of_wellPlaced {text place : String} (h : text ≠ "" → text = place) :
    orElse text place = place := by
  unfold orElse
  by_cases hempty : text = ""
  · simp [hempty]
  · rw [if_neg (by simpa using hempty)]
    exact h hempty

/-- What a document leaves out is filled in with the keys of its place. -/
theorem linked_completeNamespace {key : String} {ns : Namespace} (h : ns.WellPlaced key) :
    (completeNamespace key ns).Linked key := by
  have hkey : (completeNamespace key ns).key = key := orElse_of_wellPlaced h.1
  constructor
  · exact hkey
  · exact completeNamespace_forall fun name t ht => orElse_of_wellPlaced (h.2 name t ht).2
  · rw [hkey]
    exact completeNamespace_forall fun name t ht => orElse_of_wellPlaced (h.2 name t ht).1

/-- Taking over a document keeps the links, if its own keys say where they stand. -/
theorem linked_inject (hc : c.Linked)
    (hdocument : ∀ key ns, document.get? key = some ns → ns.WellPlaced key) :
    (c.inject document).Linked := by
  apply inject_forall hc
  intro key ns hns
  exact linked_completeNamespace (hdocument key ns hns)

theorem linked_after (hc : c.Linked) {op : Operation} (hop : op.WellPlaced) : (c.after op).Linked := by
  cases op with
  | record path t =>
    rcases (realizes_record path t).after c with hok | ⟨-, hsame⟩
    · exact linked_record hc hok
    · show Linked ((recordInPlace path t).run c).2
      rw [hsame]
      exact hc
  | inject document => exact linked_inject hc hop

/-- **The links hold after every run**, whatever fails on the way. -/
theorem linked_run (ops : List Operation) (hops : ∀ op ∈ ops, op.WellPlaced) (hc : c.Linked) :
    (ops.foldl after c).Linked := by
  induction ops generalizing c with
  | nil => exact hc
  | cons op rest ih =>
    apply ih
    · intro op' hop'
      exact hops op' (List.mem_cons_of_mem op hop')
    · exact linked_after hc (hops op List.mem_cons_self)

/-! ## Look-ups and the listing -/

theorem table?_eq_some {key name : String} {o : OwnedTable} : c.table? key name = some o ↔
    c.namespaces.get? key = some o.owner ∧ o.owner.tables.get? name = some o.table := by
  unfold table? namespace? Namespace.table?
  constructor
  · intro h
    obtain ⟨ns, hns, h⟩ := Option.bind_eq_some_iff.mp h
    obtain ⟨t, ht, h⟩ := Option.bind_eq_some_iff.mp h
    cases h
    exact ⟨hns, ht⟩
  · rintro ⟨hns, ht⟩
    rw [hns, Option.bind_eq_bind, Option.bind_some, ht]
    rfl

/-- The listing by entries: every table of every namespace, in the order of the keys. -/
theorem tables_eq_flatMap (c : Catalog) :
    c.tables = c.namespaces.entries.flatMap (fun e => e.2.tables.entries.map (fun f => ⟨e.2, f.2⟩)) := by
  unfold tables KeyMap.values Namespace.owned KeyMap.values
  rw [List.flatMap_map]
  simp only [List.map_map]
  rfl

/-- The tables that are listed are those of all namespaces. -/
theorem mem_tables {o : OwnedTable} : o ∈ c.tables ↔
    ∃ key name, c.namespaces.get? key = some o.owner ∧ o.owner.tables.get? name = some o.table := by
  rw [tables_eq_flatMap]
  simp only [List.mem_flatMap, List.mem_map]
  constructor
  · rintro ⟨⟨key, ns⟩, hns, ⟨name, t⟩, ht, rfl⟩
    exact ⟨key, name, KeyMap.mem_entries_iff.mp hns, KeyMap.mem_entries_iff.mp ht⟩
  · rintro ⟨key, name, hns, ht⟩
    exact ⟨(key, o.owner), KeyMap.mem_entries_iff.mpr hns, (name, o.table), KeyMap.mem_entries_iff.mpr ht, rfl⟩

/-- **What is listed is what is looked up** under the keys that namespace and table know. -/
theorem mem_tables_iff (h : c.Linked) {o : OwnedTable} :
    o ∈ c.tables ↔ c.table? o.owner.key o.table.name = some o := by
  rw [mem_tables, table?_eq_some]
  constructor
  · rintro ⟨key, name, hns, ht⟩
    have hlinked := h key o.owner hns
    rw [hlinked.key_eq, hlinked.name_eq name o.table ht]
    exact ⟨hns, ht⟩
  · rintro ⟨hns, ht⟩
    exact ⟨o.owner.key, o.table.name, hns, ht⟩

/-- A table that is listed leads to the namespace that it is listed with. -/
theorem ownerOf?_of_mem_tables (h : c.Linked) {o : OwnedTable} (ho : o ∈ c.tables) :
    c.ownerOf? o.table = some o.owner := by
  obtain ⟨key, name, hns, ht⟩ := mem_tables.mp ho
  have hlinked := h key o.owner hns
  unfold ownerOf? namespace?
  rw [hlinked.namespaceId_eq name o.table ht, hlinked.key_eq]
  exact hns

/-- **No table is listed twice.** Two tables of a namespace differ in name, and two namespaces in key. -/
theorem nodup_tables (h : c.Linked) : c.tables.Nodup := by
  rw [tables_eq_flatMap, List.nodup_flatMap]
  constructor
  · intro e he
    have hlinked := h e.1 e.2 (KeyMap.mem_entries_iff.mp he)
    apply List.pairwise_map.mpr
    apply List.Pairwise.imp_of_mem _ e.2.tables.sorted
    intro f f' hf hf' hlt heq
    have hname := hlinked.name_eq f.1 f.2 (KeyMap.mem_entries_iff.mp hf)
    have hname' := hlinked.name_eq f'.1 f'.2 (KeyMap.mem_entries_iff.mp hf')
    have htable : f.2 = f'.2 := congrArg OwnedTable.table heq
    rw [← hname, ← hname', htable] at hlt
    exact String.lt_irrefl _ hlt
  · apply List.Pairwise.imp_of_mem _ c.namespaces.sorted
    intro e e' he he' hlt o ho ho'
    have hkey := (h e.1 e.2 (KeyMap.mem_entries_iff.mp he)).key_eq
    have hkey' := (h e'.1 e'.2 (KeyMap.mem_entries_iff.mp he')).key_eq
    obtain ⟨f, -, rfl⟩ := List.mem_map.mp ho
    obtain ⟨f', -, heq⟩ := List.mem_map.mp ho'
    have howner : e'.2 = e.2 := congrArg OwnedTable.owner heq
    rw [← hkey, ← hkey', howner] at hlt
    exact String.lt_irrefl _ hlt

/-- The tables are counted as they are listed. -/
theorem tableCount_eq_length (c : Catalog) : c.tableCount = c.tables.length := by
  unfold tableCount tables
  induction c.namespaces.values with
  | nil => rfl
  | cons ns rest ih =>
    rw [List.foldr_cons, List.flatMap_cons, List.length_append, ih]
    congr 1
    unfold Namespace.owned KeyMap.values Namespace.size KeyMap.size
    rw [List.length_map, List.length_map]

/-! ## Owner links -/

/-- **Owner links agree in every catalog that recording and taking over documents lead to.** Each namespace is
    stored under its own key and each table under its own name, with the key of its namespace. So the owner
    that a table names is the namespace it is listed with, and its own keys lead back to it; each table that
    there is is listed once, and the listing is as long as the count says.

    Recording in place gives what recording gives, and leaves everything as it was when that is an error. -/
theorem owner_links_agree (ops : List Operation) (hops : ∀ op ∈ ops, op.WellPlaced) :
    let c := ops.foldl after empty
    (∀ key ns, c.namespace? key = some ns → ns.key = key ∧
      ∀ name t, ns.table? name = some t → t.name = name ∧ t.namespaceId = ns.key) ∧
    (∀ o ∈ c.tables, c.ownerOf? o.table = some o.owner ∧ c.table? o.owner.key o.table.name = some o) ∧
    (∀ key name o, c.table? key name = some o → c.tables.count o = 1) ∧
    c.tableCount = c.tables.length ∧
    (∀ path t c', c.record path t = .ok c' → (recordInPlace path t).run c = (.ok (), c')) ∧
    (∀ path t e, c.record path t = .error e → (recordInPlace path t).run c = (.error e, c)) := by
  intro c
  have hlinked : c.Linked := linked_run ops hops linked_empty
  refine ⟨?_, ?_, ?_, tableCount_eq_length c, ?_, ?_⟩
  · intro key ns hns
    have h := hlinked key ns hns
    exact ⟨h.key_eq, fun name t ht => ⟨h.name_eq name t ht, h.namespaceId_eq name t ht⟩⟩
  · intro o ho
    exact ⟨ownerOf?_of_mem_tables hlinked ho, (mem_tables_iff hlinked).mp ho⟩
  · intro key name o ho
    apply List.count_eq_one_of_mem (nodup_tables hlinked)
    obtain ⟨hns, ht⟩ := table?_eq_some.mp ho
    exact mem_tables.mpr ⟨key, name, hns, ht⟩
  · exact fun path t c' => (realizes_record path t).run_of_ok
  · exact fun path t e => (realizes_record path t).run_of_error

/-- A document with a table that leaves out its keys, a file of a directory that is not known, and two files of
    the directory of the document, one of which replaces the table. -/
def mixedRun : List Operation :=
  [.inject (.ofList [("linux", { tables := .ofList [("a", { description := "old" })] })]),
   .record "plan9/a.table" { name := "a" },
   .record "linux/a.table" { name := "a", namespaceId := "darwin" },
   .record "linux/b.table" { name := "b" }]

theorem owner_links_agree_mixedRun :
    (∀ op ∈ mixedRun, op.WellPlaced) ∧ (mixedRun.foldl after empty).tables.length = 2 ∧
      ∀ o ∈ (mixedRun.foldl after empty).tables, o.table.namespaceId = o.owner.key := by
  have hops : ∀ op ∈ mixedRun, op.WellPlaced := by
    intro op hop
    rcases List.mem_cons.mp hop with rfl | hrecords
    · rintro key ns hns
      obtain ⟨rfl, rfl⟩ : key = "linux" ∧ _ = ns := by
        simpa [KeyMap.ofList] using hns
      refine ⟨fun h => absurd rfl h, fun name t ht => ?_⟩
      obtain ⟨rfl, rfl⟩ : name = "a" ∧ _ = t := by
        simpa [KeyMap.ofList] using ht
      exact ⟨fun h => absurd rfl h, fun h => absurd rfl h⟩
    · simp only [List.mem_cons, List.not_mem_nil, or_false] at hrecords
      rcases hrecords with rfl | rfl | rfl <;> exact trivial
  obtain ⟨hkeys, htables, -, hcount, -⟩ := owner_links_agree mixedRun hops
  refine ⟨hops, ?_, ?_⟩
  · rw [← hcount]
    decide
  · intro o ho
    obtain ⟨hns, ht⟩ := table?_eq_some.mp (htables o ho).2
    exact ((hkeys _ _ hns).2 _ _ ht).2

end Catalog
end TableSpec
