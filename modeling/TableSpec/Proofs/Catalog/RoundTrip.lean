import TableSpec.Proofs.Catalog.Reachable
import TableSpec.Proofs.Yaml.Text

/-!
# `Proofs.Catalog.RoundTrip` — catalogs survive being exchanged

What is written of a catalog and read again is the catalog, in both formats. This puts together what is said
elsewhere about the three steps: the text of a tree is read as the tree, the tree of a catalog's namespaces
is read as these namespaces, and taking them over has no key to fill in.

## Contents
- `Catalog.ofDocument_toDocument`: documents.
- `Catalog.ofJson_toJson`, and a table that is hard to write as JSON.
- `Catalog.ofYaml_toYaml`, and one that is hard to write as YAML.
-/

namespace TableSpec
namespace Catalog

open Document

variable {c : Catalog}

/-- A catalog is read from its own document, in any format. -/
theorem ofDocument_toDocument {δ : Type} [Document δ] [LawfulDocument δ] (h : Reachable c) :
    ofDocument (toDocument c : δ) = .ok c := by
  have hread : readMap Namespace.ofDocument (toDocument c : δ) = .ok c.namespaces := readMap_toDocument h.bounded
  rw [ofDocument, hread]
  -- no key is left to be filled in
  exact congrArg Except.ok (inject_empty h.keyed)

/-- **A catalog survives being written as JSON and read again.** The namespaces in the text are those of the
    catalog, field by field, whether or not a field was left out; and taking them over changes nothing. -/
theorem ofJson_toJson (h : Reachable c) :
    Json.decode (readMap Namespace.ofDocument) c.toJson = .ok c.namespaces ∧
      empty.inject c.namespaces = c ∧ ofJson c.toJson = .ok c := by
  have hcanonical : Json.Canonical c.toDocument := toDocument_mem Json.closed_canonical h.bounded
  refine ⟨?_, inject_empty h.keyed, ?_⟩
  · rw [toJson, Json.decode_pretty _ hcanonical]
    exact readMap_toDocument h.bounded
  · rw [ofJson, toJson, Json.decode_pretty _ hcanonical]
    exact ofDocument_toDocument h

/-- A table with option values of all kinds, and texts that need escapes or look like something else. -/
def peculiar : Table where
  name := "a \"b\""
  description := " two\nlines\t"
  attributes := .ofList [("flag", .bool true), ("nothing", .null), ("spelled", .text "true"), ("", .text "")]
  schema := some { columns := [{ index := 7, name := "#" }], foreignKeys := [.ofList [("null", .null)]] }

theorem ofJson_toJson_peculiar :
    ∃ c, empty.record "linux/a.table" peculiar = .ok c ∧ Reachable c ∧ ofJson c.toJson = .ok c := by
  have hbounded : peculiar.Bounded := by
    refine ⟨?_, ?_⟩
    · rintro s ⟨⟩ c hc
      obtain rfl := List.mem_singleton.mp hc
      show 7 < UInt64.size
      decide
    · rintro key s ⟨⟩
  obtain ⟨c, hc⟩ : ∃ c, empty.record "linux/a.table" peculiar = .ok c := ⟨_, rfl⟩
  have hreachable : Reachable c := .record .empty hbounded hc
  exact ⟨c, hc, hreachable, (ofJson_toJson hreachable).2.2⟩

/-- **A catalog survives being written as YAML and read again**, whatever texts it holds and wherever: none is
    taken for a truth value, a number, nothing or a part of the document, and none loses a character. -/
theorem ofYaml_toYaml (h : Reachable c) :
    Yaml.decode (readMap Namespace.ofDocument) c.toYaml = .ok c.namespaces ∧
      empty.inject c.namespaces = c ∧ ofYaml c.toYaml = .ok c := by
  have hcanonical : Yaml.Canonical c.toDocument := toDocument_mem Yaml.closed_canonical h.bounded
  refine ⟨?_, inject_empty h.keyed, ?_⟩
  · -- the document of a catalog is a mapping from the keys of its namespaces
    exact (Yaml.decode_print _ hcanonical).trans (readMap_toDocument h.bounded)
  · exact (Yaml.decode_print _ hcanonical).trans (ofDocument_toDocument h)

/-- A table with texts that look like other values, and texts that begin, end or go on with what has a meaning
    in a document. -/
def awkward : Table where
  name := " a: # b "
  description := " two\n\nlines\n\n"
  attributes := .ofList [("~", .text "true"), ("1", .text "null"), ("- ", .text "1e3"), ("", .text ""),
    ("flag", .bool false), ("nothing", .null), ("'\"", .text "\x01\t\n")]
  examples := ["- a", "? b", "|", "---", "c\n", "\n"]
  schema := some { columns := [{ index := 7, name := "\x7b" }], foreignKeys := [.ofList [(":", .text "0x10")]] }

theorem ofYaml_toYaml_awkward :
    ∃ c, empty.record "linux/a.table" awkward = .ok c ∧ Reachable c ∧ ofYaml c.toYaml = .ok c := by
  have hbounded : awkward.Bounded := by
    refine ⟨?_, ?_⟩
    · rintro s ⟨⟩ c hc
      obtain rfl := List.mem_singleton.mp hc
      show 7 < UInt64.size
      decide
    · rintro key s ⟨⟩
  obtain ⟨c, hc⟩ : ∃ c, empty.record "linux/a.table" awkward = .ok c := ⟨_, rfl⟩
  have hreachable : Reachable c := .record .empty hbounded hc
  exact ⟨c, hc, hreachable, (ofYaml_toYaml hreachable).2.2⟩

end Catalog
end TableSpec
