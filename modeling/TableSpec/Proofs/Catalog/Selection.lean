import Mathlib.Data.List.Forall2
import TableSpec.Proofs.Catalog.LastWrite

/-!
# `Proofs.Catalog.Selection` — the tables for an operating system

Which directories apply to an operating system is a row of a fixed table. The tables for it are those of the
namespaces of these directories, in the order of the row.

A catalog may hold the same namespace under two keys, so that tables cannot be told apart by what they are. What is
listed once is therefore a place, which is the key of a namespace with a name in it (`placesIn`). Only in a linked
catalog a table knows its place, and is itself listed once (`nodup_tablesIn`).

## Contents
- `Catalog.tablesIn`: the tables of some directories. `tablesForSystem_of_listed`, `tablesForSystem_of_unlisted`.
- `exists_source_of_mem_tablesIn`: where the tables of a recorded catalog come from.
- `Catalog.placesIn`, `Precedes`: their places, and the order of places. `forall₂_tablesIn`, `mem_placesIn`,
  `pairwise_placesIn`.
- `linked_recordEach`, `nodup_tablesIn`, `exists_system_of_mem_tables`: recorded catalogs.
- `tablesForSystem_exact`: all of it.
-/

namespace TableSpec
namespace Catalog

variable {c : Catalog} {system : String} {row : List String}

/-- The tables of directories, one directory after the other. -/
def tablesIn (c : Catalog) (row : List String) : List OwnedTable :=
  row.flatMap (fun key => ((c.namespace? key).map Namespace.owned).getD [])

theorem tablesForSystem_of_listed (h : (system, row) ∈ Platform.operatingSystems) :
    c.tablesForSystem system = .ok (c.tablesIn row) := by
  unfold tablesForSystem
  rw [Platform.directoriesFor_eq_ok.mpr h]
  rfl

/-- An operating system that is not in the table is an error that names it. -/
theorem tablesForSystem_of_unlisted (h : system ∉ Platform.operatingSystems.map Prod.fst) :
    c.tablesForSystem system = .error (.lookup system "OS namespaces") := by
  have hlookup : Platform.operatingSystems.lookup system = none := by
    rw [List.lookup_eq_none_iff]
    intro e he
    rw [bne_iff_ne]
    rintro rfl
    exact h (List.mem_map_of_mem he)
  have herror : Platform.directoriesFor system = .error (.lookup system "OS namespaces") :=
    Platform.entry_eq_error.mpr ⟨hlookup, rfl⟩
  exact bind_eq_error.mpr (Or.inl herror)

theorem mem_tablesIn {o : OwnedTable} : o ∈ c.tablesIn row ↔
    ∃ key ∈ row, c.namespace? key = some o.owner ∧ ∃ name, o.owner.table? name = some o.table := by
  unfold tablesIn
  rw [List.mem_flatMap]
  constructor
  · rintro ⟨key, hkey, ho⟩
    cases hns : c.namespace? key with
    | none => simp [hns] at ho
    | some ns =>
      rw [hns] at ho
      obtain ⟨t, ht, rfl⟩ := List.mem_map.mp ho
      obtain ⟨⟨name, t⟩, he, rfl⟩ := List.mem_map.mp ht
      exact ⟨key, hkey, hns, name, KeyMap.mem_entries_iff.mp he⟩
  · rintro ⟨key, hkey, hns, name, ht⟩
    refine ⟨key, hkey, ?_⟩
    rw [hns]
    have htable : o.table ∈ o.owner.tables.values :=
      List.mem_map.mpr ⟨(name, o.table), KeyMap.mem_entries_iff.mpr ht, rfl⟩
    exact List.mem_map.mpr ⟨o.table, htable, rfl⟩

/-- A table of a recorded catalog is that of a file, apart from the namespace that it says it is in. -/
theorem exists_source_of_mem_tablesIn {sources : List LocatedTable} {o : OwnedTable}
    (ho : o ∈ (empty.recordEach sources).tablesIn row) :
    ∃ s ∈ sources, ∃ key, o.table = { s.table with namespaceId := key } := by
  obtain ⟨key, -, hns, name, ht⟩ := mem_tablesIn.mp ho
  obtain ⟨s, hs, hsource⟩ := exists_source_of_table? hns ht
  exact ⟨s, hs, key, hsource⟩

/-! ## Places -/

/-- The places in directories, one directory after the other. -/
def placesIn (c : Catalog) (row : List String) : List (String × String) :=
  row.flatMap fun key => (((c.namespace? key).map (fun ns => ns.tables.keys)).getD []).map fun name => (key, name)

/-- The order of places: that of their directories in the row, and in a directory that of the names. -/
def Precedes (row : List String) (place other : String × String) : Prop :=
  [place.1, other.1].Sublist row ∨ place.1 = other.1 ∧ place.2 < other.2

/-- What is listed is what is at the places, one after the other. -/
theorem forall₂_tablesIn (c : Catalog) (row : List String) :
    List.Forall₂ (fun place o => c.table? place.1 place.2 = some o) (c.placesIn row) (c.tablesIn row) := by
  induction row with
  | nil => exact .nil
  | cons key rest ih =>
    unfold placesIn tablesIn
    rw [List.flatMap_cons, List.flatMap_cons]
    refine List.rel_append ?_ ih
    cases hns : c.namespace? key with
    | none => exact .nil
    | some ns =>
      -- the names and the tables of a namespace are both taken from its entries
      show List.Forall₂ _ ((ns.tables.entries.map Prod.fst).map _) ((ns.tables.entries.map Prod.snd).map _)
      rw [List.map_map, List.map_map, List.forall₂_map_left_iff, List.forall₂_map_right_iff, List.forall₂_same]
      intro entry hentry
      exact table?_eq_some.mpr ⟨hns, KeyMap.mem_entries_iff.mp hentry⟩

/-- The places of a row are those of its namespaces that hold a table. -/
theorem mem_placesIn {key name : String} :
    (key, name) ∈ c.placesIn row ↔ key ∈ row ∧ ∃ o, c.table? key name = some o := by
  unfold placesIn
  rw [List.mem_flatMap]
  constructor
  · rintro ⟨key', hkey', hplace⟩
    obtain ⟨name', hname', ⟨⟩⟩ := List.mem_map.mp hplace
    cases hns : c.namespace? key with
    | none => simp [hns] at hname'
    | some ns =>
      rw [hns] at hname'
      obtain ⟨t, ht⟩ := KeyMap.mem_keys_iff.mp hname'
      exact ⟨hkey', ⟨ns, t⟩, table?_eq_some.mpr ⟨hns, ht⟩⟩
  · rintro ⟨hkey, o, ho⟩
    obtain ⟨hns, ht⟩ := table?_eq_some.mp ho
    refine ⟨key, hkey, List.mem_map_of_mem ?_⟩
    show name ∈ ((c.namespaces.get? key).map (fun ns => ns.tables.keys)).getD []
    rw [hns]
    exact KeyMap.mem_keys_iff.mpr ⟨o.table, ht⟩

/-- Places stand in their order. -/
theorem pairwise_placesIn (c : Catalog) (row : List String) : (c.placesIn row).Pairwise (Precedes row) := by
  unfold placesIn
  rw [List.pairwise_flatMap]
  constructor
  · intro key _
    rw [List.pairwise_map]
    cases c.namespace? key with
    | none => exact List.Pairwise.nil
    | some ns =>
      -- the names of a namespace increase
      exact ns.tables.pairwise_keys.imp fun hlt => Or.inr ⟨rfl, hlt⟩
  · apply List.pairwise_iff_forall_sublist.mpr
    intro key key' hsublist place hplace place' hplace'
    obtain ⟨name, -, rfl⟩ := List.mem_map.mp hplace
    obtain ⟨name', -, rfl⟩ := List.mem_map.mp hplace'
    exact Or.inl hsublist

/-- No place precedes itself where no directory comes twice. -/
theorem not_precedes_self (h : row.Nodup) (place : String × String) : ¬Precedes row place place := by
  rintro (hsublist | ⟨-, hlt⟩)
  · exact absurd (h.sublist hsublist) (by simp)
  · exact String.lt_irrefl _ hlt

theorem nodup_placesIn (c : Catalog) (h : row.Nodup) : (c.placesIn row).Nodup := by
  refine (pairwise_placesIn c row).imp ?_
  rintro place _ hprecedes rfl
  exact not_precedes_self h place hprecedes

/-! ## Recorded catalogs -/

theorem linked_recordEach (sources : List LocatedTable) : (empty.recordEach sources).Linked := by
  have hrun : empty.recordEach sources =
      (sources.map (fun s => Operation.record s.path s.table)).foldl after empty := List.foldl_map.symm
  rw [hrun]
  apply linked_run _ _ linked_empty
  intro op hop
  obtain ⟨s, -, rfl⟩ := List.mem_map.mp hop
  exact trivial

/-- In a linked catalog a table knows its place. -/
theorem place_of_table? (h : c.Linked) {key name : String} {o : OwnedTable} (ho : c.table? key name = some o) :
    (key, name) = (o.owner.key, o.table.name) := by
  obtain ⟨hns, ht⟩ := table?_eq_some.mp ho
  have hlinked := h key o.owner hns
  rw [hlinked.key_eq, hlinked.name_eq name o.table ht]

theorem nodup_tablesIn (hc : c.Linked) (h : row.Nodup) : (c.tablesIn row).Nodup := by
  have hplaces : c.placesIn row = (c.tablesIn row).map (fun o => (o.owner.key, o.table.name)) := by
    rw [← List.forall₂_eq_eq_eq, List.forall₂_map_right_iff]
    exact (forall₂_tablesIn c row).imp fun _ _ ho => place_of_table? hc ho
  exact List.Nodup.of_map _ (hplaces ▸ nodup_placesIn c h)

/-- No directory comes twice in a row. -/
theorem nodup_of_mem_operatingSystems : ∀ entry ∈ Platform.operatingSystems, entry.2.Nodup := by decide

/-- Every directory applies to some operating system. -/
theorem exists_system_of_mem_directories : ∀ directory ∈ Platform.directories.map Prod.fst,
    ∃ entry ∈ Platform.operatingSystems, directory ∈ entry.2 := by
  decide

/-- **No recorded table is left out.** A directory whose files are recorded is a known one, and every known one
    applies to some operating system. -/
theorem exists_system_of_mem_tables {sources : List LocatedTable} {o : OwnedTable}
    (ho : o ∈ (empty.recordEach sources).tables) :
    ∃ entry ∈ Platform.operatingSystems, ((empty.recordEach sources).tablesIn entry.2).count o = 1 := by
  obtain ⟨key, name, hns, ht⟩ := mem_tables.mp ho
  obtain ⟨-, description, hdescription, -⟩ := namespace?_recordEach_eq_some.mp hns
  obtain ⟨entry, hentry, hkey⟩ :=
    exists_system_of_mem_directories key (List.mem_map_of_mem (Platform.describe_eq_ok.mp hdescription))
  refine ⟨entry, hentry, List.count_eq_one_of_mem ?_ ?_⟩
  · exact nodup_tablesIn (linked_recordEach sources) (nodup_of_mem_operatingSystems entry hentry)
  · exact mem_tablesIn.mpr ⟨key, hkey, hns, name, ht⟩

/-! ## Selection -/

/-- When there are tables for an operating system, and what is wrong otherwise. -/
theorem tablesForSystem_decided (c : Catalog) (system : String) :
    ((∃ tables, c.tablesForSystem system = .ok tables) ↔ system ∈ Platform.operatingSystems.map Prod.fst) ∧
    (∀ tables, c.tablesForSystem system = .ok tables →
      ∃ row, (system, row) ∈ Platform.operatingSystems ∧ tables = c.tablesIn row) ∧
    (∀ e, c.tablesForSystem system = .error e ↔
      system ∉ Platform.operatingSystems.map Prod.fst ∧ e = .lookup system "OS namespaces") := by
  apply decided
  · intro hlisted
    obtain ⟨entry, hentry, rfl⟩ := List.mem_map.mp hlisted
    exact ⟨_, tablesForSystem_of_listed hentry, entry.2, hentry, rfl⟩
  · rintro e ⟨hunlisted, rfl⟩
    exact tablesForSystem_of_unlisted hunlisted
  · by_cases hlisted : system ∈ Platform.operatingSystems.map Prod.fst
    · exact Or.inl hlisted
    · exact Or.inr ⟨_, hlisted, rfl⟩

/-- **The tables for an operating system.** There are some, or none, just when the operating system is in the table
    of operating systems.

    Then they are the tables at some places, one after the other. The places are those that the catalog has in the
    directories of the row, each of them once, and their order is that of the directories in the row and of the names
    in each directory. A directory without a namespace has no places.

    In a catalog that is made by recording files, every table is among those for some operating system, and is there
    once. -/
theorem tablesForSystem_exact (c : Catalog) (system : String) :
    ((∃ tables, c.tablesForSystem system = .ok tables) ↔ system ∈ Platform.operatingSystems.map Prod.fst) ∧
    (∀ e, c.tablesForSystem system = .error e ↔
      system ∉ Platform.operatingSystems.map Prod.fst ∧ e = .lookup system "OS namespaces") ∧
    (∀ row tables, (system, row) ∈ Platform.operatingSystems → c.tablesForSystem system = .ok tables →
      ∃ places : List (String × String),
        List.Forall₂ (fun place o => c.table? place.1 place.2 = some o) places tables ∧
        (∀ key name, (key, name) ∈ places ↔ key ∈ row ∧ ∃ o, c.table? key name = some o) ∧
        places.Nodup ∧ places.Pairwise (Precedes row)) ∧
    (∀ sources, c = empty.recordEach sources → ∀ o ∈ c.tables,
      ∃ other tables, c.tablesForSystem other = .ok tables ∧ tables.count o = 1) := by
  obtain ⟨haccepted, -, herror⟩ := tablesForSystem_decided c system
  refine ⟨haccepted, herror, ?_, ?_⟩
  · intro row tables hrow htables
    rw [tablesForSystem_of_listed hrow] at htables
    cases htables
    exact ⟨c.placesIn row, forall₂_tablesIn c row, fun key name => mem_placesIn,
      nodup_placesIn c (nodup_of_mem_operatingSystems _ hrow), pairwise_placesIn c row⟩
  · rintro sources rfl o ho
    obtain ⟨entry, hentry, hcount⟩ := exists_system_of_mem_tables ho
    exact ⟨entry.1, _, tablesForSystem_of_listed hentry, hcount⟩

/-- One namespace under the keys of two directories, and another one that applies to other operating systems. -/
def sharedNamespace : Catalog :=
  let ns : Namespace := { key := "posix", tables := .ofList [("b", { name := "b" }), ("a", { name := "a" })] }
  ⟨.ofList [("posix", ns), ("linux", ns), ("macwin", { key := "macwin", tables := .ofList [("a", { name := "a" })] })]⟩

theorem tablesForSystem_exact_sharedNamespace :
    (∃ tables, sharedNamespace.tablesForSystem "linux" = .ok tables ∧
      ∃ places : List (String × String),
        List.Forall₂ (fun place o => sharedNamespace.table? place.1 place.2 = some o) places tables ∧
        ("linux", "a") ∈ places ∧ ("posix", "a") ∈ places ∧ ("macwin", "a") ∉ places ∧ places.Nodup) ∧
    sharedNamespace.tablesForSystem "beos" = .error (.lookup "beos" "OS namespaces") ∧
    ∃ o ∈ (empty.recordEach rivals).tables, o.owner.key = "darwin" ∧
      ∃ other tables, (empty.recordEach rivals).tablesForSystem other = .ok tables ∧ tables.count o = 1 := by
  have hrow := Platform.directoriesFor_eq_ok.mp (rfl : Platform.directoriesFor "linux" = .ok _)
  obtain ⟨haccepted, -, hlisted, -⟩ := tablesForSystem_exact sharedNamespace "linux"
  obtain ⟨-, hunlisted, -, -⟩ := tablesForSystem_exact sharedNamespace "beos"
  refine ⟨?_, (hunlisted _).mpr ⟨by decide, rfl⟩, ?_⟩
  · obtain ⟨tables, htables⟩ := haccepted.mpr (by decide)
    obtain ⟨places, hplaces, hmem, hnodup, -⟩ := hlisted _ tables hrow htables
    refine ⟨tables, htables, places, hplaces, ?_, ?_, ?_, hnodup⟩
    · exact (hmem _ _).mpr ⟨by decide, _, rfl⟩
    · exact (hmem _ _).mpr ⟨by decide, _, rfl⟩
    · exact fun h => absurd ((hmem _ _).mp h).1 (by decide)
  · obtain ⟨o, ho, hkey⟩ : ∃ o ∈ (empty.recordEach rivals).tables, o.owner.key = "darwin" := by decide
    exact ⟨o, ho, hkey, (tablesForSystem_exact (empty.recordEach rivals) "darwin").2.2.2 rivals rfl o ho⟩

end Catalog
end TableSpec
