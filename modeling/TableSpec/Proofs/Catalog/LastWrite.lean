import TableSpec.Proofs.Catalog.Owners
import TableSpec.Proofs.Platform

/-!
# `Proofs.Catalog.LastWrite` — which table of several is kept

Files come in some order, several of them may declare a table for one place, and some are in directories that
nobody knows. `Catalog.recordEach` records what can be recorded. What is then at a place is said by the list of
files alone: the table of the last file that goes there (`recordEach_last_write`). So nothing else about the
order matters, and a directory has nothing to do with the files of another one.

The look-up to follow is `Catalog.owner?` and not `namespace?`: it has the namespace that a directory would get
already before there is one, so that one equation holds before and after the first file of a directory
(`owner?_recordEach`).

## Contents
- `LocatedTable.isIn`, `LocatedTable.goesTo`, `SamePlaces`: the places that files go to.
- `Namespace.insertAll`, `table?_insertAll`.
- `Catalog.recordEach`, `owner?_recordEach`, `namespace?_recordEach`.
- `recordEach_last_write`: all of it.
-/

namespace TableSpec

/-! ## Places -/

namespace LocatedTable

/-- Whether a file is in the directory with this name. -/
def isIn (key : String) (s : LocatedTable) : Bool := Catalog.keyOf s.path = key

/-- Whether the table of a file goes to the place under this name in this directory. -/
def goesTo (key name : String) (s : LocatedTable) : Bool := s.isIn key && s.table.name = name

theorem isIn_iff {key : String} {s : LocatedTable} : s.isIn key = true ↔ Catalog.keyOf s.path = key := by
  simp [isIn]

theorem goesTo_iff {key name : String} {s : LocatedTable} :
    s.goesTo key name = true ↔ Catalog.keyOf s.path = key ∧ s.table.name = name := by
  simp [goesTo, isIn]

end LocatedTable

/-- The same files in another order, but those that go to one place in the same one. -/
def SamePlaces (sources sources' : List LocatedTable) : Prop :=
  ∀ key name, sources.filter (LocatedTable.goesTo key name) = sources'.filter (LocatedTable.goesTo key name)

theorem SamePlaces.symm {sources sources' : List LocatedTable} (h : SamePlaces sources sources') :
    SamePlaces sources' sources :=
  fun key name => (h key name).symm

/-- A file is found at the place that it goes to. -/
theorem SamePlaces.mem {sources sources' : List LocatedTable} (h : SamePlaces sources sources')
    {s : LocatedTable} (hs : s ∈ sources) : s ∈ sources' := by
  have hplace : s.goesTo (Catalog.keyOf s.path) s.table.name = true := LocatedTable.goesTo_iff.mpr ⟨rfl, rfl⟩
  have hmem := List.mem_filter.mpr ⟨hs, hplace⟩
  rw [h] at hmem
  exact (List.mem_filter.mp hmem).1

/-- The same directories have files. -/
theorem SamePlaces.any_isIn {sources sources' : List LocatedTable} (h : SamePlaces sources sources')
    (key : String) : sources.any (LocatedTable.isIn key) = sources'.any (LocatedTable.isIn key) := by
  rw [Bool.eq_iff_iff, List.any_eq_true, List.any_eq_true]
  constructor
  · rintro ⟨s, hs, hkey⟩
    exact ⟨s, h.mem hs, hkey⟩
  · rintro ⟨s, hs, hkey⟩
    exact ⟨s, h.symm.mem hs, hkey⟩

/-! ## Several tables in a namespace -/

namespace Namespace

/-- Put tables in, one after the other. -/
def insertAll (ns : Namespace) (tables : List Table) : Namespace := tables.foldl insert ns

@[simp] theorem insertAll_nil (ns : Namespace) : ns.insertAll [] = ns := rfl

@[simp] theorem insertAll_cons (ns : Namespace) (t : Table) (rest : List Table) :
    ns.insertAll (t :: rest) = (ns.insert t).insertAll rest := rfl

/-- Tables do not change the key of a namespace. -/
@[simp] theorem key_insertAll (ns : Namespace) (tables : List Table) : (ns.insertAll tables).key = ns.key := by
  induction tables generalizing ns with
  | nil => rfl
  | cons t rest ih => exact ih (ns.insert t)

@[simp] theorem name_insertAll (ns : Namespace) (tables : List Table) : (ns.insertAll tables).name = ns.name := by
  induction tables generalizing ns with
  | nil => rfl
  | cons t rest ih => exact ih (ns.insert t)

/-- Under a name there is the last table of this name, as a member of the namespace. -/
theorem table?_insertAll (ns : Namespace) (tables : List Table) (name : String) :
    (ns.insertAll tables).table? name =
      ((tables.filter (fun t => t.name = name)).getLast?.map ns.adopt).or (ns.table? name) := by
  induction tables generalizing ns with
  | nil => rfl
  | cons t rest ih =>
    rw [insertAll_cons, ih, table?_insert]
    -- a namespace adopts alike before and after a table is put in
    show ((rest.filter _).getLast?.map ns.adopt).or _ = _
    by_cases hname : t.name = name
    · rw [List.filter_cons_of_pos (by simpa using hname), if_pos hname.symm, List.getLast?_cons]
      cases (rest.filter (fun t => t.name = name)).getLast? <;> rfl
    · rw [List.filter_cons_of_neg (by simpa using hname), if_neg (Ne.symm hname)]

/-- There is a table under the name of each one that is put in. -/
theorem exists_table?_insertAll {ns : Namespace} {tables : List Table} {t : Table} (ht : t ∈ tables) :
    ∃ t', (ns.insertAll tables).table? t.name = some t' := by
  rw [table?_insertAll]
  have hmem : t ∈ tables.filter (fun t' => t'.name = t.name) := List.mem_filter.mpr ⟨ht, by simp⟩
  cases hlast : (tables.filter (fun t' => t'.name = t.name)).getLast? with
  | none =>
    rw [List.getLast?_eq_none_iff.mp hlast] at hmem
    cases hmem
  | some t' => exact ⟨ns.adopt t', rfl⟩

/-- Namespaces are the same when they answer alike. -/
theorem ext_table? {ns ns' : Namespace} (hkey : ns.key = ns'.key) (hname : ns.name = ns'.name)
    (htables : ∀ name, ns.table? name = ns'.table? name) : ns = ns' := by
  cases ns
  cases ns'
  cases hkey
  cases hname
  congr
  exact KeyMap.ext_get? htables

end Namespace

namespace Catalog

/-! ## What can be recorded -/

/-- Record the tables of files one after the other, except those that cannot be recorded. -/
def recordEach (c : Catalog) (sources : List LocatedTable) : Catalog :=
  sources.foldl (fun c s => c.after (.record s.path s.table)) c

@[simp] theorem recordEach_nil (c : Catalog) : c.recordEach [] = c := rfl

@[simp] theorem recordEach_cons (c : Catalog) (s : LocatedTable) (rest : List LocatedTable) :
    c.recordEach (s :: rest) = (c.after (.record s.path s.table)).recordEach rest := rfl

/-- What is left when a table can be recorded is the catalog that recording gives. -/
theorem after_record_of_ok {c c' : Catalog} {path : String} {t : Table} (h : c.record path t = .ok c') :
    c.after (.record path t) = c' := by
  show ((recordInPlace path t).run c).2 = c'
  rw [(realizes_record path t).run_of_ok h]

/-- What is left when a table cannot be recorded is the catalog as it was. -/
theorem after_record_of_error {c : Catalog} {path : String} {t : Table} {e : Error}
    (h : c.record path t = .error e) : c.after (.record path t) = c := by
  show ((recordInPlace path t).run c).2 = c
  rw [(realizes_record path t).run_of_error h]

/-- A file of a known directory puts its table into the namespace that the directory has or would get. -/
theorem after_record_of_owner? {c : Catalog} {path : String} {ns : Namespace} (t : Table)
    (h : c.owner? (keyOf path) = some ns) :
    c.after (.record path t) = ⟨c.namespaces.insert (keyOf path) (ns.insert t)⟩ :=
  after_record_of_ok (record_of_owner? h)

/-- A file of a directory that nobody knows leaves no trace. -/
theorem after_record_of_not_owner? {c : Catalog} {path : String} (t : Table)
    (h : c.owner? (keyOf path) = none) : c.after (.record path t) = c :=
  after_record_of_error (record_of_not_owner? h)

/-- **One file.** Its table goes into the namespace of its directory, if the directory has one. -/
theorem owner?_after_record (c : Catalog) (s : LocatedTable) (key : String) :
    (c.after (.record s.path s.table)).owner? key =
      (c.owner? key).map (fun ns => if s.isIn key then ns.insert s.table else ns) := by
  by_cases hkey : keyOf s.path = key
  · simp only [LocatedTable.isIn_iff.mpr hkey, if_true]
    subst hkey
    cases howner : c.owner? (keyOf s.path) with
    | none => rw [after_record_of_not_owner? _ howner, howner]; rfl
    | some ns => rw [after_record_of_owner? _ howner, owner?_insert, if_pos rfl]; rfl
  · have hother : s.isIn key = false := by simpa [LocatedTable.isIn] using hkey
    simp only [hother, Bool.false_eq_true, if_false, Option.map_id']
    cases howner : c.owner? (keyOf s.path) with
    | none => rw [after_record_of_not_owner? _ howner]
    | some ns => rw [after_record_of_owner? _ howner, owner?_insert, if_neg (Ne.symm hkey)]

/-- After a file of its directory a namespace is there if it could be; otherwise nothing has changed. -/
theorem namespace?_after_record (c : Catalog) (s : LocatedTable) (key : String) :
    (c.after (.record s.path s.table)).namespace? key =
      if s.isIn key then (c.after (.record s.path s.table)).owner? key else c.namespace? key := by
  by_cases hkey : keyOf s.path = key
  · rw [if_pos (LocatedTable.isIn_iff.mpr hkey)]
    subst hkey
    cases howner : c.owner? (keyOf s.path) with
    | none =>
      rw [after_record_of_not_owner? _ howner, howner]
      exact (owner?_eq_none howner).1
    | some ns => simp [after_record_of_owner? _ howner, owner?, namespace?]
  · rw [if_neg (fun h => hkey (LocatedTable.isIn_iff.mp h))]
    cases howner : c.owner? (keyOf s.path) with
    | none => rw [after_record_of_not_owner? _ howner]
    | some ns => simp [after_record_of_owner? _ howner, namespace?, Ne.symm hkey]

/-- **Many files.** The namespace of a directory gets the tables of its own files, in their order. -/
theorem owner?_recordEach (c : Catalog) (sources : List LocatedTable) (key : String) :
    (c.recordEach sources).owner? key = (c.owner? key).map (fun ns =>
      ns.insertAll ((sources.filter (LocatedTable.isIn key)).map LocatedTable.table)) := by
  induction sources generalizing c with
  | nil => simp
  | cons s rest ih =>
    rw [recordEach_cons, ih, owner?_after_record, Option.map_map]
    congr 1
    funext ns
    by_cases hkey : s.isIn key = true
    · simp [hkey]
    · simp [hkey]

/-- A directory has a namespace as soon as one of its files has been looked at, if it can have one. -/
theorem namespace?_recordEach (c : Catalog) (sources : List LocatedTable) (key : String) :
    (c.recordEach sources).namespace? key =
      if sources.any (LocatedTable.isIn key) then (c.recordEach sources).owner? key else c.namespace? key := by
  induction sources generalizing c with
  | nil => rfl
  | cons s rest ih =>
    rw [recordEach_cons, ih, namespace?_after_record, List.any_cons]
    cases hrest : rest.any (LocatedTable.isIn key) with
    | true => simp
    | false =>
      -- no later file is in the directory, so nothing more is put in
      have hnone : rest.filter (LocatedTable.isIn key) = [] :=
        List.filter_eq_nil_iff.mpr fun s' hs' => List.any_eq_false.mp hrest s' hs'
      simp [owner?_recordEach, hnone]

/-! ## The catalog of a list of files -/

/-- The namespace that a list of files makes for a directory. -/
theorem namespace?_recordEach_empty (sources : List LocatedTable) (key : String) :
    (empty.recordEach sources).namespace? key =
      if sources.any (LocatedTable.isIn key) then
        (Namespace.ofDirectory key).toOption.map (fun ns =>
          ns.insertAll ((sources.filter (LocatedTable.isIn key)).map LocatedTable.table))
      else none := by
  rw [namespace?_recordEach, owner?_recordEach, owner?_empty]
  rfl

/-- A namespace is there when a file is in its directory and the directory is known. -/
theorem namespace?_recordEach_eq_some {sources : List LocatedTable} {key : String} {ns : Namespace} :
    (empty.recordEach sources).namespace? key = some ns ↔ (∃ s ∈ sources, keyOf s.path = key) ∧
      ∃ description, Platform.describe key = .ok description ∧
        ns = Namespace.insertAll { key := key, name := description }
          ((sources.filter (LocatedTable.isIn key)).map LocatedTable.table) := by
  have hany : (∃ s ∈ sources, keyOf s.path = key) ↔ sources.any (LocatedTable.isIn key) = true := by
    simp [List.any_eq_true, LocatedTable.isIn]
  rw [namespace?_recordEach_empty, hany]
  unfold Namespace.ofDirectory
  by_cases h : sources.any (LocatedTable.isIn key) = true
  · rw [if_pos h]
    cases Platform.describe key with
    | error e => simp [Except.map, Except.toOption]
    | ok description => simp [h, Except.map, Except.toOption, eq_comm]
  · rw [if_neg h]
    simp [h]

/-- The tables of one place among those of one directory. -/
theorem filter_place (sources : List LocatedTable) (key name : String) :
    ((sources.filter (LocatedTable.isIn key)).map LocatedTable.table).filter (fun t => t.name = name) =
      (sources.filter (LocatedTable.goesTo key name)).map LocatedTable.table := by
  rw [List.filter_map, List.filter_filter]
  congr 2
  funext s
  simp [LocatedTable.goesTo, Bool.and_comm]

/-- A place holds the table of the last file that goes there. -/
theorem table_recordEach {sources : List LocatedTable} {key description : String}
    (hkey : Platform.describe key = .ok description) (name : String) :
    ((empty.recordEach sources).table? key name).map OwnedTable.table =
      (sources.filter (LocatedTable.goesTo key name)).getLast?.map
        (fun s => { s.table with namespaceId := key }) := by
  have htable : ((empty.recordEach sources).table? key name).map OwnedTable.table =
      ((empty.recordEach sources).namespace? key).bind (fun ns => ns.table? name) := by
    unfold table?
    cases (empty.recordEach sources).namespace? key with
    | none => rfl
    | some ns =>
      show Option.map _ ((ns.table? name).bind _) = ns.table? name
      cases ns.table? name <;> rfl
  rw [htable]
  cases hns : (empty.recordEach sources).namespace? key with
  | some ns =>
    obtain ⟨-, description', -, rfl⟩ := namespace?_recordEach_eq_some.mp hns
    rw [Option.bind_some, Namespace.table?_insertAll, filter_place, List.getLast?_map, Option.map_map]
    show Option.or _ none = _
    rw [Option.or_none]
    rfl
  | none =>
    -- without a file in the directory there is none for the place
    have hnone : sources.filter (LocatedTable.goesTo key name) = [] := by
      apply List.filter_eq_nil_iff.mpr
      intro s hs hplace
      have hsome := namespace?_recordEach_eq_some.mpr
        ⟨⟨s, hs, (LocatedTable.goesTo_iff.mp hplace).1⟩, description, hkey, rfl⟩
      rw [hns] at hsome
      cases hsome
    rw [hnone]
    rfl

/-- A table of a namespace is that of a file, apart from the namespace that it says it is in. -/
theorem exists_source_of_table? {sources : List LocatedTable} {key name : String} {ns : Namespace} {t : Table}
    (hns : (empty.recordEach sources).namespace? key = some ns) (ht : ns.table? name = some t) :
    ∃ s ∈ sources, t = { s.table with namespaceId := key } := by
  obtain ⟨-, description, -, rfl⟩ := namespace?_recordEach_eq_some.mp hns
  rw [Namespace.table?_insertAll, filter_place, List.getLast?_map] at ht
  rcases Option.or_eq_some_iff.mp ht with hlast | ⟨-, hnone⟩
  · obtain ⟨t', ht', rfl⟩ := Option.map_eq_some_iff.mp hlast
    obtain ⟨s, hs, rfl⟩ := Option.map_eq_some_iff.mp ht'
    exact ⟨s, (List.mem_filter.mp (List.mem_of_getLast? hs)).1, rfl⟩
  · cases hnone

/-- Files that go to the same places in the same order make the same catalog. -/
theorem recordEach_congr {sources sources' : List LocatedTable} (h : SamePlaces sources sources') :
    empty.recordEach sources = empty.recordEach sources' := by
  have hnamespace : ∀ key, (empty.recordEach sources).namespace? key =
      (empty.recordEach sources').namespace? key := by
    intro key
    rw [namespace?_recordEach_empty, namespace?_recordEach_empty, h.any_isIn key]
    congr 2
    funext ns
    apply Namespace.ext_table?
    · simp
    · simp
    · intro name
      rw [Namespace.table?_insertAll, Namespace.table?_insertAll, filter_place, filter_place, h key name]
  exact congrArg Catalog.mk (KeyMap.ext_get? hnamespace)

/-- **The last write counts, and nothing else of the order.** After the tables of any files have been recorded,
    except those that cannot be, a known directory has a namespace just when one of the files is in it, and the
    namespace has the key and the description of the directory; no other directory has one. Under a name it
    holds the table of the last file that goes there, changed only in the namespace that it says it is in, and
    nothing when no file goes there.

    So another order of the files makes the same catalog and the same documents, as long as the order among
    files for one place is kept. And what a directory holds does not depend on the files of others.

    To record each of the files is to go on with what recording the first one gives, and with the catalog as it
    was when that is an error. -/
theorem recordEach_last_write (sources : List LocatedTable) :
    let c := empty.recordEach sources
    (∀ key, (∃ ns, c.namespace? key = some ns) ↔
      key ∈ Platform.directories.map Prod.fst ∧ ∃ s ∈ sources, keyOf s.path = key) ∧
    (∀ key ns, c.namespace? key = some ns →
      ns.key = key ∧ (key, ns.name) ∈ Platform.directories ∧ ∃ name t, ns.table? name = some t) ∧
    (∀ key ∈ Platform.directories.map Prod.fst, ∀ name,
      (c.table? key name).map OwnedTable.table =
        (sources.filter (LocatedTable.goesTo key name)).getLast?.map
          (fun s => { s.table with namespaceId := key })) ∧
    (∀ sources', SamePlaces sources sources' → empty.recordEach sources' = c ∧
      (empty.recordEach sources').toJson = c.toJson ∧ (empty.recordEach sources').toYaml = c.toYaml) ∧
    (∀ key, c.namespace? key = (empty.recordEach (sources.filter (LocatedTable.isIn key))).namespace? key) ∧
    (∀ (d : Catalog) (s : LocatedTable) (rest : List LocatedTable),
      (∀ d', d.record s.path s.table = .ok d' → d.recordEach (s :: rest) = d'.recordEach rest) ∧
      ∀ e, d.record s.path s.table = .error e → d.recordEach (s :: rest) = d.recordEach rest) := by
  intro c
  have hknown : ∀ key, key ∈ Platform.directories.map Prod.fst ↔
      ∃ description, Platform.describe key = .ok description := by
    intro key
    simp [Platform.describe_eq_ok]
  refine ⟨?_, ?_, ?_, ?_, ?_, ?_⟩
  · intro key
    rw [hknown]
    constructor
    · rintro ⟨ns, hns⟩
      obtain ⟨hs, description, hkey, -⟩ := namespace?_recordEach_eq_some.mp hns
      exact ⟨⟨description, hkey⟩, hs⟩
    · rintro ⟨⟨description, hkey⟩, hs⟩
      exact ⟨_, namespace?_recordEach_eq_some.mpr ⟨hs, description, hkey, rfl⟩⟩
  · intro key ns hns
    obtain ⟨⟨s, hs, hkey⟩, description, hdescription, rfl⟩ := namespace?_recordEach_eq_some.mp hns
    refine ⟨by simp, by simpa using Platform.describe_eq_ok.mp hdescription, s.table.name, ?_⟩
    apply Namespace.exists_table?_insertAll
    exact List.mem_map_of_mem (List.mem_filter.mpr ⟨hs, LocatedTable.isIn_iff.mpr hkey⟩)
  · intro key hkey name
    obtain ⟨description, hdescription⟩ := (hknown key).mp hkey
    exact table_recordEach hdescription name
  · intro sources' h
    rw [recordEach_congr h.symm]
    exact ⟨rfl, rfl, rfl⟩
  · intro key
    show (empty.recordEach sources).namespace? key = _
    rw [namespace?_recordEach_empty, namespace?_recordEach_empty, List.filter_filter, List.any_filter]
    simp
  · intro d s rest
    refine ⟨fun d' hok => ?_, fun e herror => ?_⟩
    · rw [recordEach_cons, after_record_of_ok hok]
    · rw [recordEach_cons, after_record_of_error herror]

/-- Two files for one place, a file in a directory that is not known, and one of the same name in another
    directory. -/
def rivals : List LocatedTable :=
  [⟨"specs/linux/a.table", { name := "a", description := "first" }⟩,
   ⟨"specs/plan9/a.table", { name := "a" }⟩,
   ⟨"specs/linux/b.table", { name := "a", description := "second" }⟩,
   ⟨"specs/darwin/a.table", { name := "a", namespaceId := "linux" }⟩]

/-- The same files, with the two for one place in their order. -/
def rivalsElsewhere : List LocatedTable :=
  [⟨"specs/darwin/a.table", { name := "a", namespaceId := "linux" }⟩,
   ⟨"specs/linux/a.table", { name := "a", description := "first" }⟩,
   ⟨"specs/linux/b.table", { name := "a", description := "second" }⟩,
   ⟨"specs/plan9/a.table", { name := "a" }⟩]

theorem samePlaces_rivals : SamePlaces rivals rivalsElsewhere := by
  intro key name
  have hlinux : keyOf "specs/linux/a.table" = "linux" := by decide
  have hlinux' : keyOf "specs/linux/b.table" = "linux" := by decide
  have hplan9 : keyOf "specs/plan9/a.table" = "plan9" := by decide
  have hdarwin : keyOf "specs/darwin/a.table" = "darwin" := by decide
  -- whatever the place is, what is left of both lists is compared file by file
  simp only [rivals, rivalsElsewhere, List.filter_cons, List.filter_nil, LocatedTable.goesTo,
    LocatedTable.isIn, hlinux, hlinux', hplan9, hdarwin]
  by_cases hkey : "linux" = key
  · subst hkey
    simp
  · by_cases hkey' : "plan9" = key
    · subst hkey'
      simp
    · simp [hkey, hkey']

theorem recordEach_last_write_rivals :
    empty.recordEach rivalsElsewhere = empty.recordEach rivals ∧
      ((empty.recordEach rivals).table? "linux" "a").map OwnedTable.table =
        some { name := "a", description := "second", namespaceId := "linux" } ∧
      ((empty.recordEach rivals).table? "darwin" "a").map OwnedTable.table =
        some { name := "a", namespaceId := "darwin" } := by
  obtain ⟨-, -, hplace, hsame, -⟩ := recordEach_last_write rivals
  refine ⟨(hsame rivalsElsewhere samePlaces_rivals).1, ?_, ?_⟩
  · rw [hplace "linux" (by decide) "a"]
    decide
  · rw [hplace "darwin" (by decide) "a"]
    decide

end Catalog
end TableSpec
