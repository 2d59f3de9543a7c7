import TableSpec.Document.Model
import TableSpec.Proofs.Document.Record

/-!
# `Proofs.Document.Catalog` — catalogs read back as they were written

A column of a table has an index, which is a machine word. `Table.Bounded` and so on say so; nothing else
about a catalog matters for its document. The map of the namespaces of a catalog reads back as it was
written in every format, and reading a document makes bounded namespaces only.

## Contents
- `Column.Bounded`, `Schema.Bounded`, `Table.Bounded`, `Namespace.Bounded`, `Catalog.Bounded`.
- `Column.ofDocument_toDocument` and so on, up to `Catalog.readMap_toDocument`.
- `Catalog.toDocument_mem`: properties of the document of a catalog.
- `Catalog.bounded_of_readMap`: what is read is bounded.
-/

namespace TableSpec

open Document

/-! ## Machine words -/

/-- The index of a column is a machine word. -/
def Column.Bounded (c : Column) : Prop := c.index < UInt64.size

def Schema.Bounded (s : Schema) : Prop := ∀ c ∈ s.columns, c.Bounded

def Table.Bounded (t : Table) : Prop :=
  (∀ s, t.schema = some s → s.Bounded) ∧ ∀ key s, t.extendedSchemas.get? key = some s → s.Bounded

def Namespace.Bounded (ns : Namespace) : Prop := ∀ key t, ns.tables.get? key = some t → t.Bounded

/-- All columns of namespaces have a machine word as their index. -/
def Bounded (m : KeyMap Namespace) : Prop := ∀ key ns, m.get? key = some ns → ns.Bounded

variable {δ : Type} [Document δ]

/-! ## Reading back -/

section RoundTrip

variable [LawfulDocument δ]

/-- A column is read back when its index fits into 64 bits. -/
theorem Column.ofDocument_toDocument {c : Column} (h : c.Bounded) :
    ofDocument (toDocument c : δ) = .ok c := by
  refine readRecord_writeRecord (by simp [fields, Field.count, Field.text, Field.list, Field.map]) ?_ ?_
  · intro name hname
    obtain rfl := List.mem_singleton.mp hname
    exact ⟨_, List.mem_cons_self, rfl, rfl⟩
  refine restoreAll_cons (Field.restore_count h) ?_
  refine restoreAll_cons (Field.restore_text rfl) ?_
  refine restoreAll_cons (Field.restore_text rfl) ?_
  refine restoreAll_cons (Field.restore_text rfl) ?_
  refine restoreAll_cons (Field.restore_list rfl fun s _ => LawfulDocument.text_ofText s) ?_
  exact restoreAll_cons (Field.restore_map rfl fun _ v _ => LawfulDocument.scalar_ofScalar v) rfl

/-- A schema is read back when its columns are. -/
theorem Schema.ofDocument_toDocument {s : Schema} (h : s.Bounded) :
    ofDocument (toDocument s : δ) = .ok s := by
  refine readRecord_writeRecord (by simp [fields, Field.names, Field.flag, Field.list]) (by simp) ?_
  refine restoreAll_cons (Field.restore_names rfl) ?_
  refine restoreAll_cons (Field.restore_flag rfl) ?_
  refine restoreAll_cons (Field.restore_list rfl fun c hc => Column.ofDocument_toDocument (h c hc)) ?_
  refine restoreAll_cons (Field.restore_list rfl fun m _ => ?_) rfl
  exact readMap_writeMap fun _ v _ => LawfulDocument.scalar_ofScalar v

/-- A schema is not written as null, which stands for none. -/
theorem Schema.isNull_toDocument (s : Schema) : isNull (toDocument s : δ) = false :=
  LawfulDocument.isNull_ofEntries _

/-- A table is read back when its schemas are. -/
theorem Table.ofDocument_toDocument {t : Table} (h : t.Bounded) :
    ofDocument (toDocument t : δ) = .ok t := by
  obtain ⟨hschema, hextended⟩ := h
  refine readRecord_writeRecord (by simp [fields, Field.text, Field.list, Field.option, Field.map]) (by simp) ?_
  refine restoreAll_cons (Field.restore_text rfl) ?_
  refine restoreAll_cons (Field.restore_text rfl) ?_
  refine restoreAll_cons (Field.restore_list rfl fun s _ => LawfulDocument.text_ofText s) ?_
  refine restoreAll_cons (Field.restore_text rfl) ?_
  refine restoreAll_cons (Field.restore_option rfl fun s hs => ?_) ?_
  · exact ⟨s.isNull_toDocument, Schema.ofDocument_toDocument (hschema s hs)⟩
  refine restoreAll_cons (Field.restore_map rfl fun _ v _ => LawfulDocument.scalar_ofScalar v) ?_
  refine restoreAll_cons (Field.restore_text rfl) ?_
  refine restoreAll_cons (Field.restore_list rfl fun s _ => LawfulDocument.text_ofText s) ?_
  refine restoreAll_cons (Field.restore_map rfl fun key s hs => ?_) ?_
  · exact Schema.ofDocument_toDocument (hextended key s hs)
  exact restoreAll_cons (Field.restore_list rfl fun s _ => LawfulDocument.text_ofText s) rfl

/-- A namespace is read back when its tables are. -/
theorem Namespace.ofDocument_toDocument {ns : Namespace} (h : ns.Bounded) :
    ofDocument (toDocument ns : δ) = .ok ns := by
  refine readRecord_writeRecord (by simp [fields, Field.text, Field.map]) (by simp) ?_
  refine restoreAll_cons (Field.restore_text rfl) ?_
  refine restoreAll_cons (Field.restore_text rfl) ?_
  exact restoreAll_cons (Field.restore_map rfl fun key t ht => Table.ofDocument_toDocument (h key t ht)) rfl

/-- **The namespaces of a catalog read back as they were written**, in every format. -/
theorem Catalog.readMap_toDocument {c : Catalog} (h : Bounded c.namespaces) :
    readMap Namespace.ofDocument (toDocument c : δ) = .ok c.namespaces :=
  readMap_writeMap fun key ns hns => Namespace.ofDocument_toDocument (h key ns hns)

end RoundTrip

/-! ## What a document of a catalog is made of -/

section Written

variable {P : δ → Prop} (hP : Closed P)
include hP

theorem Column.toDocument_mem {c : Column} (h : c.Bounded) : P (toDocument c) := by
  refine writeRecord_mem hP ?_
  simp only [fields, List.forall_mem_cons]
  refine ⟨?_, ?_, ?_, ?_, ?_, ?_, by simp⟩
  · exact fun d => Field.write_count hP h
  · exact fun d => Field.write_text hP
  · exact fun d => Field.write_text hP
  · exact fun d => Field.write_text hP
  · exact fun d => Field.write_list hP fun s _ => hP.text s
  · exact fun d => Field.write_map hP fun _ v _ => hP.scalar v

theorem Schema.toDocument_mem {s : Schema} (h : s.Bounded) : P (toDocument s) := by
  refine writeRecord_mem hP ?_
  simp only [fields, List.forall_mem_cons]
  refine ⟨?_, ?_, ?_, ?_, by simp⟩
  · exact fun d => Field.write_names hP
  · exact fun d => Field.write_flag hP
  · exact fun d => Field.write_list hP fun c hc => Column.toDocument_mem hP (h c hc)
  · exact fun d => Field.write_list hP fun m _ => hP.writeMap fun _ v _ => hP.scalar v

/-- The document of a table is of a kind when those of its schemas are, and so on down to scalars. -/
theorem Table.toDocument_mem {t : Table} (h : t.Bounded) : P (toDocument t) := by
  obtain ⟨hschema, hextended⟩ := h
  refine writeRecord_mem hP ?_
  simp only [fields, List.forall_mem_cons]
  refine ⟨?_, ?_, ?_, ?_, ?_, ?_, ?_, ?_, ?_, ?_, by simp⟩
  · exact fun d => Field.write_text hP
  · exact fun d => Field.write_text hP
  · exact fun d => Field.write_list hP fun s _ => hP.text s
  · exact fun d => Field.write_text hP
  · exact fun d => Field.write_option fun s hs => Schema.toDocument_mem hP (hschema s hs)
  · exact fun d => Field.write_map hP fun _ v _ => hP.scalar v
  · exact fun d => Field.write_text hP
  · exact fun d => Field.write_list hP fun s _ => hP.text s
  · exact fun d => Field.write_map hP fun key s hs => Schema.toDocument_mem hP (hextended key s hs)
  · exact fun d => Field.write_list hP fun s _ => hP.text s

theorem Namespace.toDocument_mem {ns : Namespace} (h : ns.Bounded) : P (toDocument ns) := by
  refine writeRecord_mem hP ?_
  simp only [fields, List.forall_mem_cons]
  refine ⟨?_, ?_, ?_, by simp⟩
  · exact fun d => Field.write_text hP
  · exact fun d => Field.write_text hP
  · exact fun d => Field.write_map hP fun key t ht => Table.toDocument_mem hP (h key t ht)

/-- The document of a catalog has every property that whatever is built from values with it has too. -/
theorem Catalog.toDocument_mem {c : Catalog} (h : Bounded c.namespaces) : P (toDocument c) :=
  hP.writeMap fun key ns hns => Namespace.toDocument_mem hP (h key ns hns)

end Written

/-! ## What is read is bounded -/

section Read

variable [LawfulDocument δ]

/-- A reader takes no index that does not fit into 64 bits. -/
theorem Column.bounded_of_ofDocument {d : δ} {c : Column} (h : ofDocument d = .ok c) : c.Bounded := by
  refine readRecord_keeps h ?_ (by simp [Column.Bounded])
  simp only [fields, List.forall_mem_cons]
  refine ⟨?_, ?_, ?_, ?_, ?_, ?_, by simp⟩
  · intro d t u hread _
    obtain ⟨n, hn, rfl⟩ := map_eq_ok.mp hread
    exact LawfulDocument.lt_of_count hn
  all_goals
    intro d t u hread hQ
    obtain ⟨x, -, rfl⟩ := map_eq_ok.mp hread
    exact hQ

theorem Schema.bounded_of_ofDocument {d : δ} {s : Schema} (h : ofDocument d = .ok s) : s.Bounded := by
  refine readRecord_keeps h ?_ (by simp [Schema.Bounded])
  simp only [fields, List.forall_mem_cons]
  refine ⟨?_, ?_, ?_, ?_, by simp⟩
  rotate_left 2
  · intro d t u hread _
    obtain ⟨xs, hxs, rfl⟩ := map_eq_ok.mp hread
    exact readList_forall hxs fun d c hc => Column.bounded_of_ofDocument hc
  all_goals
    intro d t u hread hQ
    obtain ⟨x, -, rfl⟩ := map_eq_ok.mp hread
    exact hQ

/-- What is read of a table has such columns only, in its base schema and in its extended ones. -/
theorem Table.bounded_of_ofDocument {d : δ} {t : Table} (h : ofDocument d = .ok t) : t.Bounded := by
  refine readRecord_keeps h ?_ (by simp [Table.Bounded])
  simp only [fields, List.forall_mem_cons]
  refine ⟨?_, ?_, ?_, ?_, ?_, ?_, ?_, ?_, ?_, ?_, by simp⟩
  rotate_left 4
  · intro d t u hread hQ
    obtain ⟨o, ho, rfl⟩ := map_eq_ok.mp hread
    refine ⟨fun s hs => ?_, hQ.2⟩
    unfold readOption at ho
    split at ho
    · cases ho
      exact absurd hs (by simp)
    · obtain ⟨s', hs', rfl⟩ := map_eq_ok.mp ho
      cases hs
      exact Schema.bounded_of_ofDocument hs'
  rotate_left 3
  · intro d t u hread hQ
    obtain ⟨m, hm, rfl⟩ := map_eq_ok.mp hread
    exact ⟨hQ.1, readMap_forall hm fun d s hs => Schema.bounded_of_ofDocument hs⟩
  all_goals
    intro d t u hread hQ
    obtain ⟨x, -, rfl⟩ := map_eq_ok.mp hread
    exact hQ

theorem Namespace.bounded_of_ofDocument {d : δ} {ns : Namespace} (h : ofDocument d = .ok ns) :
    ns.Bounded := by
  refine readRecord_keeps h ?_ (by simp [Namespace.Bounded])
  simp only [fields, List.forall_mem_cons]
  refine ⟨?_, ?_, ?_, by simp⟩
  rotate_left 2
  · intro d t u hread _
    obtain ⟨m, hm, rfl⟩ := map_eq_ok.mp hread
    exact readMap_forall hm fun d s hs => Table.bounded_of_ofDocument hs
  all_goals
    intro d t u hread hQ
    obtain ⟨x, -, rfl⟩ := map_eq_ok.mp hread
    exact hQ

/-- Namespaces that are read from a document are bounded. -/
theorem bounded_of_readMap {d : δ} {m : KeyMap Namespace} (h : readMap Namespace.ofDocument d = .ok m) :
    Bounded m :=
  readMap_forall h fun _ _ hns => Namespace.bounded_of_ofDocument hns

end Read

end TableSpec
