import TableSpec.Json.Model
import TableSpec.Proofs.Catalog.Recording
import TableSpec.Proofs.Document.Catalog
import TableSpec.Proofs.Json.Text
import TableSpec.Proofs.Yaml.Document
import TableSpec.Yaml.Model

/-!
# `Proofs.Catalog.Reachable` — the catalogs there are

A catalog begins empty. Tables are recorded in it, namespaces are taken over from documents, and a document
makes a new one. Whatever is done, in whatever order, a key that a namespace or a table holds is empty only
where the key of its place is (`Keyed`). So there is nothing left to be filled in when a catalog is taken
over from its own document (`Catalog.inject_empty`).

## Contents
- `Catalog.Reachable`.
- `Keyed`: keys that are not empty, with `keyed_record`, `keyed_inject` and `Reachable.keyed`.
- `Catalog.bounded_record`, `Catalog.bounded_inject` and `Reachable.bounded`: indices that are machine words.
- `Catalog.inject_empty`: taking over what a catalog has already.
-/

namespace TableSpec

open Document

/-! ## Keys -/

/-- The keys that a table holds are empty only where the keys of its place are. -/
def Table.Keyed (key name : String) (t : Table) : Prop :=
  (t.namespaceId = "" → key = "") ∧ (t.name = "" → name = "")

/-- The same for a namespace, and all tables in it. -/
def Namespace.Keyed (key : String) (ns : Namespace) : Prop :=
  (ns.key = "" → key = "") ∧ ∀ name t, ns.tables.get? name = some t → t.Keyed key name

/-- The same for all namespaces under their keys. -/
def Keyed (m : KeyMap Namespace) : Prop := ∀ key ns, m.get? key = some ns → ns.Keyed key

namespace Catalog

/-- The catalogs that come about by recording tables, taking over any namespaces whatever, and reading
    documents, in any order. The index of a column is a machine word, which is all that is asked of tables. -/
inductive Reachable : Catalog → Prop where
  | empty : Reachable empty
  | record {c c' : Catalog} {path : String} {t : Table} :
      Reachable c → t.Bounded → c.record path t = .ok c' → Reachable c'
  | inject {c : Catalog} {document : KeyMap Namespace} :
      Reachable c → Bounded document → Reachable (c.inject document)
  | ofJson {c : Catalog} {text : String} : ofJson text = .ok c → Reachable c
  | ofYaml {c : Catalog} {text : String} : ofYaml text = .ok c → Reachable c

variable {c c' : Catalog} {path : String} {t : Table} {document : KeyMap Namespace}

/-! ## What recording does -/

/-- A property of namespaces that a new one has, and that putting in the table keeps, is kept by recording
    the table. -/
theorem record_forall {Q : String → Namespace → Prop} (h : c.record path t = .ok c')
    (hc : ∀ key ns, c.namespaces.get? key = some ns → Q key ns)
    (hnew : ∀ key ns, Namespace.ofDirectory key = .ok ns → Q key ns)
    (hinsert : ∀ key ns, Q key ns → Q key (ns.insert t)) :
    ∀ key ns, c'.namespaces.get? key = some ns → Q key ns := by
  obtain ⟨owner, howner, rfl⟩ := record_eq_ok.mp h
  have hQ : Q (keyOf path) owner := by
    -- the table goes to a namespace that was there, or to a new one
    rcases Option.or_eq_some_iff.mp howner with hold | ⟨-, hdirectory⟩
    · exact hc _ _ hold
    · cases hns : Namespace.ofDirectory (keyOf path) with
      | error e =>
        rw [hns] at hdirectory
        exact absurd hdirectory (by simp [Except.toOption])
      | ok ns =>
        rw [hns] at hdirectory
        exact hnew _ _ (hns.trans (congrArg Except.ok (Option.some.inj hdirectory)))
  intro key ns hget
  rw [KeyMap.get?_insert] at hget
  by_cases hk : key = keyOf path
  · rw [if_pos hk, Option.some.injEq] at hget
    rw [← hget, hk]
    exact hinsert _ _ hQ
  · rw [if_neg hk] at hget
    exact hc key ns hget

/-- The namespace of a directory begins with the key of the directory and without tables. -/
theorem ofDirectory_eq_ok {key : String} {ns : Namespace} (h : Namespace.ofDirectory key = .ok ns) :
    ns.key = key ∧ ns.tables = .empty := by
  obtain ⟨name, -, rfl⟩ := map_eq_ok.mp h
  exact ⟨rfl, rfl⟩

/-- What is put into a namespace is found in it, under its own name. -/
theorem insert_forall {Q : String → Table → Prop} {ns : Namespace}
    (hns : ∀ name t, ns.tables.get? name = some t → Q name t) (ht : Q t.name (ns.adopt t)) :
    ∀ name t', (ns.insert t).tables.get? name = some t' → Q name t' := by
  intro name t' hget
  have hinsert : (ns.insert t).tables.get? name = if name = t.name then some (ns.adopt t) else ns.table? name :=
    Namespace.table?_insert ns t name
  rw [hinsert] at hget
  by_cases hn : name = t.name
  · rw [if_pos hn, Option.some.injEq] at hget
    rw [← hget, hn]
    exact ht
  · rw [if_neg hn] at hget
    exact hns name t' hget

/-- Recording keeps tables and namespaces under their own keys. -/
theorem keyed_record (hc : Keyed c.namespaces) (h : c.record path t = .ok c') : Keyed c'.namespaces := by
  refine record_forall h hc (fun key ns hns => ?_) (fun key ns hns => ?_)
  · obtain ⟨hkey, htables⟩ := ofDirectory_eq_ok hns
    refine ⟨fun hempty => hkey ▸ hempty, ?_⟩
    rw [htables]
    simp
  · exact ⟨hns.1, insert_forall hns.2 ⟨hns.1, id⟩⟩

/-- Recording keeps indices within their bound when the table does. -/
theorem bounded_record (hc : Bounded c.namespaces) (ht : t.Bounded) (h : c.record path t = .ok c') :
    Bounded c'.namespaces := by
  refine record_forall h hc (fun key ns hns => ?_) (fun key ns hns => ?_)
  · unfold Namespace.Bounded
    rw [(ofDirectory_eq_ok hns).2]
    simp
  · exact insert_forall hns ht

/-! ## What taking over does -/

/-- After taking over a document its namespaces are there, completed, and the others are as they were. -/
theorem get?_inject (c : Catalog) (document : KeyMap Namespace) (key : String) :
    (c.inject document).namespaces.get? key =
      ((document.get? key).map (completeNamespace key)).or (c.namespaces.get? key) :=
  KeyMap.get?_foldl_insert completeNamespace document.sorted c.namespaces key

/-- Whatever holds of the namespaces before, and of completed ones, holds of all of them afterwards. -/
theorem inject_forall {Q : String → Namespace → Prop}
    (hc : ∀ key ns, c.namespaces.get? key = some ns → Q key ns)
    (hdocument : ∀ key ns, document.get? key = some ns → Q key (completeNamespace key ns)) :
    ∀ key ns, (c.inject document).namespaces.get? key = some ns → Q key ns := by
  intro key ns hget
  rw [get?_inject] at hget
  -- a namespace of the document hides the one that was there
  rcases Option.or_eq_some_iff.mp hget with htaken | ⟨-, hold⟩
  · obtain ⟨raw, hraw, rfl⟩ := Option.map_eq_some_iff.mp htaken
    exact hdocument key raw hraw
  · exact hc key ns hold

/-- The tables of a completed namespace are the completed tables. -/
theorem completeNamespace_forall {Q : String → Table → Prop} {key : String} {ns : Namespace}
    (h : ∀ name t, ns.tables.get? name = some t → Q name (completeTable key name t)) :
    ∀ name t, (completeNamespace key ns).tables.get? name = some t → Q name t := by
  intro name t hget
  obtain ⟨raw, hraw, rfl⟩ := Option.map_eq_some_iff.mp ((KeyMap.get?_mapValues _ _ _).symm.trans hget)
  exact h name raw hraw

theorem orElse_eq_empty {text other : String} (h : orElse text other = "") : other = "" := by
  unfold orElse at h
  split at h
  · exact h
  · rename_i hempty
    exact absurd (by simp [h]) hempty

/-- What may be empty only where the other text is, is never replaced by anything else. -/
theorem orElse_of_keyed {text other : String} (h : text = "" → other = "") : orElse text other = text := by
  unfold orElse
  split
  · rename_i hempty
    have htext : text = "" := by simpa using hempty
    rw [h htext, htext]
  · rfl

/-- Taking over a document fills in the keys that it leaves out. -/
theorem keyed_inject (hc : Keyed c.namespaces) : Keyed (c.inject document).namespaces := by
  refine inject_forall hc fun key ns _ => ⟨orElse_eq_empty, ?_⟩
  exact completeNamespace_forall fun name t _ => ⟨orElse_eq_empty, orElse_eq_empty⟩

/-- Taking over a document keeps indices within their bound when the document does. -/
theorem bounded_inject (hc : Bounded c.namespaces) (hdocument : Bounded document) :
    Bounded (c.inject document).namespaces := by
  refine inject_forall hc fun key ns hns => ?_
  exact completeNamespace_forall fun name t ht => hdocument key ns hns name t ht

/-! ## Reachable catalogs -/

theorem keyed_empty : Keyed empty.namespaces := by
  intro key ns hget
  cases hget

theorem bounded_empty : Bounded empty.namespaces := by
  intro key ns hget
  cases hget

/-- What a document holds is taken over by the empty catalog. -/
theorem ofDocument_eq_ok {δ : Type} [Document δ] {d : δ} (h : ofDocument d = .ok c) :
    ∃ document, readMap Namespace.ofDocument d = .ok document ∧ empty.inject document = c :=
  map_eq_ok.mp h

/-- A catalog that is read from a text is the empty one with a document taken over, in both formats. -/
theorem exists_inject_of_ofJson {text : String} (h : ofJson text = .ok c) :
    ∃ document, Bounded document ∧ c = empty.inject document := by
  obtain ⟨c', hread, hrest⟩ := bind_eq_ok.mp h
  obtain ⟨document, hdocument, rfl⟩ := ofDocument_eq_ok hread
  refine ⟨document, bounded_of_readMap hdocument, ?_⟩
  -- what may follow the document in the text is white space
  split at hrest
  · split at hrest
    · exact (Except.ok.inj hrest).symm
    · exact absurd hrest (by simp [throw, throwThe, MonadExceptOf.throw])
  · exact absurd hrest (by simp [throw, throwThe, MonadExceptOf.throw])

/-- A catalog from YAML is a document that the empty catalog has taken over. -/
theorem exists_inject_of_ofYaml {text : String} (h : ofYaml text = .ok c) :
    ∃ document, Bounded document ∧ c = empty.inject document := by
  unfold ofYaml Yaml.decode at h
  split at h
  · obtain ⟨document, hdocument, rfl⟩ := ofDocument_eq_ok h
    exact ⟨document, bounded_of_readMap hdocument, rfl⟩
  · exact absurd h (by simp)

/-- **Keys are filled in** in every reachable catalog. -/
theorem Reachable.keyed (h : Reachable c) : Keyed c.namespaces := by
  induction h with
  | empty => exact keyed_empty
  | record _ _ hrecord ih => exact keyed_record ih hrecord
  | inject _ _ ih => exact keyed_inject ih
  | ofJson hread =>
    obtain ⟨document, -, rfl⟩ := exists_inject_of_ofJson hread
    exact keyed_inject keyed_empty
  | ofYaml hread =>
    obtain ⟨document, -, rfl⟩ := exists_inject_of_ofYaml hread
    exact keyed_inject keyed_empty

/-- Indices fit into 64 bits in all catalogs that can be reached. -/
theorem Reachable.bounded (h : Reachable c) : Bounded c.namespaces := by
  induction h with
  | empty => exact bounded_empty
  | record _ ht hrecord ih => exact bounded_record ih ht hrecord
  | inject _ hdocument ih => exact bounded_inject ih hdocument
  | ofJson hread =>
    obtain ⟨document, hdocument, rfl⟩ := exists_inject_of_ofJson hread
    exact bounded_inject bounded_empty hdocument
  | ofYaml hread =>
    obtain ⟨document, hdocument, rfl⟩ := exists_inject_of_ofYaml hread
    exact bounded_inject bounded_empty hdocument

/-! ## Nothing to fill in -/

/-- Nothing is filled in where the keys are there. -/
theorem completeTable_of_keyed {key name : String} (h : t.Keyed key name) : completeTable key name t = t := by
  rw [completeTable, orElse_of_keyed h.1, orElse_of_keyed h.2]

theorem completeNamespace_of_keyed {key : String} {ns : Namespace} (h : ns.Keyed key) :
    completeNamespace key ns = ns := by
  have htables : ns.tables.mapValues (completeTable key) = ns.tables := by
    apply KeyMap.ext_get?
    intro name
    rw [KeyMap.get?_mapValues]
    cases ht : ns.tables.get? name with
    | none => rfl
    | some t => exact congrArg some (completeTable_of_keyed (h.2 name t ht))
  rw [completeNamespace, orElse_of_keyed h.1, htables]

/-- **Taking over what a catalog has changes nothing**, when its keys are filled in. -/
theorem inject_empty (h : Keyed c.namespaces) : empty.inject c.namespaces = c := by
  have hnamespaces : (empty.inject c.namespaces).namespaces = c.namespaces := by
    apply KeyMap.ext_get?
    intro key
    rw [get?_inject]
    cases hns : c.namespaces.get? key with
    | none => rfl
    | some ns => exact congrArg some (completeNamespace_of_keyed (h key ns hns))
  exact congrArg Catalog.mk hnamespaces

end Catalog
end TableSpec
