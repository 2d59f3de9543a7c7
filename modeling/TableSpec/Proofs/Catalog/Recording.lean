import TableSpec.Ingest.Pipeline
import TableSpec.Proofs.Result

/-!
# `Proofs.Catalog.Recording` — tables recorded one after the other

Recording a table looks up the namespace of its directory, which is either in the catalog or, for a known
directory, made new. `Catalog.owner?` is that look-up, and everything about recording is said through it:
when a table can be recorded (`record_eq_ok`), why it cannot (`record_eq_error`), and what the look-up finds
afterwards (`owner?_insert`).

Two tables that differ in directory or name go to different places, so they can be recorded in either order
(`record_comm`), and many such tables in any order at all (`recordAll_perm`).

## Contents
- `Catalog.owner?`, `record_eq_ok`, `record_eq_error`, `owner?_insert`.
- `Catalog.recordAll`, and when it is possible (`exists_recordAll_iff`).
- `LocatedTable.Apart`, `record_comm`, `recordAll_perm`.
-/

namespace TableSpec
namespace Catalog

variable {c c' : Catalog} {path : String} {t : Table}

/-! ## The namespace that a table goes to -/

/-- The namespace for a directory: the one that is there, or a new one for a known directory. -/
def owner? (c : Catalog) (key : String) : Option Namespace :=
  (c.namespace? key).or (Namespace.ofDirectory key).toOption

theorem owner?_empty (key : String) : empty.owner? key = (Namespace.ofDirectory key).toOption := rfl

/-- A directory without a namespace is one that is not known; the error says so. -/
theorem owner?_eq_none {key : String} (h : c.owner? key = none) :
    c.namespace? key = none ∧ Namespace.ofDirectory key = .error (.lookup key "canonical platforms") := by
  obtain ⟨hns, hdir⟩ := Option.or_eq_none_iff.mp h
  refine ⟨hns, ?_⟩
  unfold Namespace.ofDirectory at hdir ⊢
  cases hd : Platform.describe key with
  | ok name =>
    rw [hd] at hdir
    exact absurd hdir (by simp [Except.map, Except.toOption])
  | error e =>
    -- the table of platforms is the only thing that can fail, with one error
    obtain ⟨-, rfl⟩ := Platform.entry_eq_error.mp hd
    rfl

/-- Recording puts the table into the namespace of its directory. -/
theorem record_of_owner? {ns : Namespace} (h : c.owner? (keyOf path) = some ns) :
    c.record path t = .ok ⟨c.namespaces.insert (keyOf path) (ns.insert t)⟩ := by
  simp only [owner?] at h
  cases hns : c.namespace? (keyOf path) with
  | some ns' =>
    rw [hns] at h
    simp only [Option.some_or, Option.some.injEq] at h
    subst h
    simp only [record, hns]
    rfl
  | none =>
    rw [hns, Option.none_or] at h
    cases hdir : Namespace.ofDirectory (keyOf path) with
    | ok ns' =>
      rw [hdir] at h
      simp only [Except.toOption, Option.some.injEq] at h
      subst h
      simp only [record, hns, hdir]
      rfl
    | error e =>
      rw [hdir] at h
      exact absurd h (by simp [Except.toOption])

/-- A table of a directory that is not known is not recorded, and the error names its file, once. -/
theorem record_of_not_owner? (h : c.owner? (keyOf path) = none) :
    c.record path t = .error (.inFile path (.lookup (keyOf path) "canonical platforms")) := by
  obtain ⟨hns, hdir⟩ := owner?_eq_none h
  simp only [record, hns, hdir]
  rfl

theorem record_eq_ok : c.record path t = .ok c' ↔
    ∃ ns, c.owner? (keyOf path) = some ns ∧ c' = ⟨c.namespaces.insert (keyOf path) (ns.insert t)⟩ := by
  cases h : c.owner? (keyOf path) with
  | none => simp [record_of_not_owner? h]
  | some ns => simp [record_of_owner? h, eq_comm]

theorem record_eq_error {e : Error} (h : c.record path t = .error e) : c.owner? (keyOf path) = none ∧
    ∃ cause, Namespace.ofDirectory (keyOf path) = .error cause ∧ cause.isInFile = false ∧
      e = .inFile path cause := by
  cases ho : c.owner? (keyOf path) with
  | none =>
    rw [record_of_not_owner? ho] at h
    exact ⟨rfl, _, (owner?_eq_none ho).2, rfl, (Except.error.inj h).symm⟩
  | some ns =>
    rw [record_of_owner? ho] at h
    exact absurd h (by simp)

/-- What the look-up finds after a table has been recorded. -/
theorem owner?_insert (c : Catalog) (key other : String) (ns : Namespace) :
    (Catalog.mk (c.namespaces.insert key ns)).owner? other =
      if other = key then some ns else c.owner? other := by
  unfold owner? namespace?
  by_cases h : other = key <;> simp [h]

/-! ## Many tables -/

/-- Record tables one after the other. -/
def recordAll (c : Catalog) (sources : List LocatedTable) : Except Error Catalog :=
  sources.foldlM (fun c s => c.record s.path s.table) c

theorem recordAll_cons_eq_ok {s : LocatedTable} {rest : List LocatedTable} :
    c.recordAll (s :: rest) = .ok c' ↔
      ∃ c₁, c.record s.path s.table = .ok c₁ ∧ c₁.recordAll rest = .ok c' :=
  bind_eq_ok

/-- Recording one more table. -/
theorem recordAll_concat {before : List LocatedTable} {c₁ : Catalog} {s : LocatedTable}
    (h : c.recordAll before = .ok c₁) (hs : c₁.record s.path s.table = .ok c') :
    c.recordAll (before ++ [s]) = .ok c' := by
  induction before generalizing c with
  | nil =>
    cases h
    exact recordAll_cons_eq_ok.mpr ⟨c', hs, rfl⟩
  | cons s' rest ih =>
    obtain ⟨c₂, hs', hrest⟩ := recordAll_cons_eq_ok.mp h
    exact recordAll_cons_eq_ok.mpr ⟨c₂, hs', ih hrest⟩

/-- Recording leaves the directories that have a namespace as they are: only for those is it possible. -/
theorem isSome_owner?_of_record (h : c.record path t = .ok c') (key : String) :
    (c'.owner? key).isSome = (c.owner? key).isSome := by
  obtain ⟨ns, hns, rfl⟩ := record_eq_ok.mp h
  rw [owner?_insert]
  by_cases hk : key = keyOf path
  · rw [if_pos hk, hk, hns]
    rfl
  · rw [if_neg hk]

/-- Tables can be recorded just when all of their directories have a namespace. -/
theorem exists_recordAll_iff {sources : List LocatedTable} :
    (∃ c', c.recordAll sources = .ok c') ↔ ∀ s ∈ sources, (c.owner? (keyOf s.path)).isSome = true := by
  constructor
  · rintro ⟨c', h⟩
    induction sources generalizing c with
    | nil => simp
    | cons s rest ih =>
      obtain ⟨c₁, hs, hrest⟩ := recordAll_cons_eq_ok.mp h
      intro s' hs'
      rcases List.mem_cons.mp hs' with rfl | hs'
      · obtain ⟨ns, hns, -⟩ := record_eq_ok.mp hs
        rw [hns]
        rfl
      · -- recording the first table leaves the directories of the others as they are
        rw [← isSome_owner?_of_record hs]
        exact ih hrest s' hs'
  · intro h
    induction sources generalizing c with
    | nil => exact ⟨c, rfl⟩
    | cons s rest ih =>
      obtain ⟨ns, hns⟩ := Option.isSome_iff_exists.mp (h s List.mem_cons_self)
      have hs := record_of_owner? (t := s.table) hns
      have hrest : ∀ s' ∈ rest, (owner? ⟨c.namespaces.insert (keyOf s.path) (ns.insert s.table)⟩
          (keyOf s'.path)).isSome = true := by
        intro s' hs'
        rw [isSome_owner?_of_record hs]
        exact h s' (List.mem_cons_of_mem _ hs')
      obtain ⟨c', hc'⟩ := ih hrest
      exact ⟨c', recordAll_cons_eq_ok.mpr ⟨_, hs, hc'⟩⟩

/-! ## The order does not matter -/

end Catalog

/-- Tables that go to different places: to different directories, or under different names. -/
def LocatedTable.Apart (s s' : LocatedTable) : Prop :=
  ¬(Catalog.keyOf s.path = Catalog.keyOf s'.path ∧ s.table.name = s'.table.name)

theorem LocatedTable.Apart.symm {s s' : LocatedTable} (h : s.Apart s') : s'.Apart s :=
  fun ⟨hk, hn⟩ => h ⟨hk.symm, hn.symm⟩

theorem Namespace.insert_comm (ns : Namespace) {t t' : Table} (h : t.name ≠ t'.name) :
    (ns.insert t).insert t' = (ns.insert t').insert t := by
  show { ns with tables := (ns.tables.insert _ _).insert _ _ } =
    { ns with tables := (ns.tables.insert _ _).insert _ _ }
  rw [KeyMap.insert_comm ns.tables h]
  rfl

namespace Catalog

variable {c c' : Catalog}

/-- **Tables that go to different places can be recorded in either order.** -/
theorem record_comm {s s' : LocatedTable} {c₁ c₂ : Catalog} (hapart : s.Apart s')
    (h₁ : c.record s.path s.table = .ok c₁) (h₂ : c₁.record s'.path s'.table = .ok c₂) :
    ∃ c₁', c.record s'.path s'.table = .ok c₁' ∧ c₁'.record s.path s.table = .ok c₂ := by
  obtain ⟨ns, hns, rfl⟩ := record_eq_ok.mp h₁
  obtain ⟨ns', hns', rfl⟩ := record_eq_ok.mp h₂
  rw [owner?_insert] at hns'
  by_cases hk : keyOf s'.path = keyOf s.path
  · -- one namespace, two names in it
    rw [if_pos hk, Option.some.injEq] at hns'
    subst hns'
    have hname : s.table.name ≠ s'.table.name := fun hn => hapart ⟨hk.symm, hn⟩
    refine ⟨_, record_of_owner? (by rw [hk]; exact hns), record_eq_ok.mpr ⟨ns.insert s'.table, ?_, ?_⟩⟩
    · rw [owner?_insert, if_pos hk.symm]
    · simp only [hk, KeyMap.insert_insert, Namespace.insert_comm ns hname]
  · -- two namespaces
    rw [if_neg hk] at hns'
    refine ⟨_, record_of_owner? hns', record_eq_ok.mpr ⟨ns, ?_, ?_⟩⟩
    · rw [owner?_insert, if_neg (Ne.symm hk)]
      exact hns
    · simp only [KeyMap.insert_comm c.namespaces (Ne.symm hk)]

/-- **Tables that all go to different places can be recorded in any order**, and the catalog is the same. -/
theorem recordAll_perm {sources sources' : List LocatedTable} (hperm : sources.Perm sources')
    (hapart : sources.Pairwise LocatedTable.Apart) (h : c.recordAll sources = .ok c') :
    c.recordAll sources' = .ok c' := by
  induction hperm generalizing c with
  | nil => exact h
  | cons s _ ih =>
    obtain ⟨c₁, hs, hrest⟩ := recordAll_cons_eq_ok.mp h
    exact recordAll_cons_eq_ok.mpr ⟨c₁, hs, ih (List.pairwise_cons.mp hapart).2 hrest⟩
  -- two neighbours change places, and the rest is recorded from the same catalog
  | swap s s' rest =>
    obtain ⟨hhead, -⟩ := List.pairwise_cons.mp hapart
    obtain ⟨c₁, h₁, hrest⟩ := recordAll_cons_eq_ok.mp h
    obtain ⟨c₂, h₂, hrest⟩ := recordAll_cons_eq_ok.mp hrest
    obtain ⟨c₁', hs, hs'⟩ := record_comm (hhead s List.mem_cons_self) h₁ h₂
    exact recordAll_cons_eq_ok.mpr ⟨c₁', hs, recordAll_cons_eq_ok.mpr ⟨c₂, hs', hrest⟩⟩
  -- being apart is symmetric, so it is still there after the first reordering
  | trans hp _ ih₁ ih₂ =>
    exact ih₂ (hp.pairwise hapart (fun h => h.symm)) (ih₁ hapart h)

end Catalog
end TableSpec
