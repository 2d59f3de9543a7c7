import Mathlib.Data.List.Basic
import TableSpec.Proofs.Extraction.Meaning
import TableSpec.Proofs.InPlace

/-!
# `Proofs.Extraction.Atomicity` — one declaration changes its own part of a table, or nothing

A table that is made up declaration by declaration is changed in place: a name is written before the aliases are
gone through, an extension is put in platform by platform. Still a declaration is taken as a whole or not at all
(`realizes_apply`), because all that can fail in it is looked at before anything is written. What it writes is its
own part of the table (`Table.owned`), and there it removes nothing but what it replaces (`Table.Keeps`).

## Contents
- `Table.applyInPlace`: a declaration as a change in place. `realizes_apply`.
- `Table.owned`, `Table.Keeps`, `keeps_of_apply`.
- `applyInPlace_atomic`: both, for every declaration and every table.
-/

namespace TableSpec
namespace Table

variable {t t' : Table} {call : Call} {d : Declaration}

/-! ## Declarations in place -/

/-- Take over an element of a list as an alias, if it is a text. -/
def pushAlias (element : Node) : InPlace Table Unit :=
  match element with
  | .str value => modify (fun t => { t with aliases := t.aliases ++ [value] })
  | _ => pure ()

/-- Take over the list under a keyword for aliases. -/
def pushAliases (kw : String × Node) : InPlace Table Unit :=
  if kw.1 = "aliases" then
    match kw.2 with
    | .list elements => elements.forM pushAlias
    | _ => pure ()
  else pure ()

/-- The name is written first, then the aliases one by one. -/
def writeNames (call : Call) (name : String) : InPlace Table Unit := do
  modify (fun t => { t with name := name })
  call.keywords.forM pushAliases

/-- A second base schema is looked at no further. -/
def schemaInPlace (call : Call) : InPlace Table Unit := do
  let t ← get
  if t.schema.isSome then InPlace.ofResult (.error (.duplicateSchema t.name))
  else
    let s ← InPlace.ofResult (Schema.ofCall call)
    modify (fun t => { t with schema := some s })

/-- An extension is put in under one platform after the other. -/
def writeExtension (s : Schema) : InPlace Table Unit :=
  s.platforms.toList.forM fun platform =>
    modify (fun t => { t with extendedSchemas := t.extendedSchemas.insert platform s })

/-- Bind a keyword as an attribute, if its value is a literal. -/
def pushAttribute (kw : String × Node) : InPlace Table Unit :=
  match Literal.ofNode? kw.2 with
  | some literal => modify (fun t => { t with attributes := t.attributes.insert kw.1 literal.scalar })
  | none => pure ()

/-- What a declaration does to a table in place. -/
def applyInPlace : Declaration → InPlace Table Unit
  | .known .tableName call => do
    let name ← InPlace.ofResult (textArgument .tableName call)
    writeNames call name
  | .known .description call => do
    let text ← InPlace.ofResult (textArgument .description call)
    modify (fun t => { t with description := text })
  | .known .schema call => schemaInPlace call
  | .known .attributes call => call.keywords.forM pushAttribute
  | .known .implementation call => do
    let text ← InPlace.ofResult (textArgument .implementation call)
    modify (fun t => { t with implementation := text })
  | .known .fuzzPaths call => do
    let paths ← InPlace.ofResult (textListArgument .fuzzPaths call)
    modify (fun t => { t with fuzzPaths := t.fuzzPaths ++ paths })
  | .known .extendedSchema call => do
    let s ← InPlace.ofResult (Schema.ofCall call)
    writeExtension s
  | .known .examples call => do
    let examples ← InPlace.ofResult (textListArgument .examples call)
    modify (fun t => { t with examples := t.examples ++ examples })
  | .known .column _ | .known .foreignKey _ | .unknown _ | .unnamed => pure ()

/-! ## Loops -/

theorem run_pushAlias (t : Table) (aliases : List String) (element : Node) :
    (pushAlias element).run { t with aliases := aliases } =
      (.ok (), { t with aliases := aliases ++ element.asText?.toList }) := by
  cases element with
  | str value => rfl
  | _ =>
    show (Except.ok (), { t with aliases := aliases }) = (Except.ok (), { t with aliases := aliases ++ [] })
    rw [List.append_nil]

/-- The aliases in a list under a keyword are those that are collected from it. -/
theorem run_pushAliases (t : Table) (aliases : List String) (kw : String × Node) :
    (pushAliases kw).run { t with aliases := aliases } =
      (.ok (), { t with aliases := aliases ++ if kw.1 = "aliases" then kw.2.texts else [] }) := by
  have hnothing : (Except.ok (), { t with aliases := aliases }) =
      ((Except.ok (), { t with aliases := aliases ++ [] }) : Except Error Unit × Table) := by rw [List.append_nil]
  unfold pushAliases
  by_cases hkw : kw.1 = "aliases"
  · rw [if_pos hkw, if_pos hkw]
    cases kw.2 with
    | list elements =>
      have hloop := InPlace.run_forM (run_pushAlias t) elements aliases
      rw [List.foldl_append_eq_append, ← List.flatMap_def, ← List.filterMap_eq_flatMap_toList] at hloop
      exact hloop
    | _ => exact hnothing
  · rw [if_neg hkw, if_neg hkw]
    exact hnothing

theorem run_writeNames (t : Table) (call : Call) (name : String) :
    (writeNames call name).run t = (.ok (), { t with name := name, aliases := t.aliases ++ aliasKeywords call }) := by
  have haliases : aliasKeywords call =
      call.keywords.flatMap fun kw => if kw.1 = "aliases" then kw.2.texts else [] := by
    unfold aliasKeywords
    congr 1
    funext kw
    cases kw.2 <;> simp [Node.texts]
  unfold writeNames
  rw [InPlace.run_bind, InPlace.run_modify]
  have hloop := InPlace.run_forM (run_pushAliases { t with name := name }) call.keywords t.aliases
  rw [List.foldl_append_eq_append, ← List.flatMap_def, ← haliases] at hloop
  exact hloop

theorem run_writeExtension (t : Table) (s : Schema) :
    (writeExtension s).run t = (.ok (), t.addExtendedSchema s) := by
  have hstep : ∀ (m : KeyMap Schema) (platform : String),
      InPlace.run (modify fun t => { t with extendedSchemas := t.extendedSchemas.insert platform s })
        { t with extendedSchemas := m } = (.ok (), { t with extendedSchemas := m.insert platform s }) :=
    fun _ _ => rfl
  exact InPlace.run_forM hstep s.platforms.toList t.extendedSchemas

theorem run_pushAttribute (t : Table) (attributes : KeyMap Scalar) (kw : String × Node) :
    (pushAttribute kw).run { t with attributes := attributes } =
      (.ok (), { t with attributes := (literalKeywords [kw]).foldl (fun m e => m.insert e.1 e.2) attributes }) := by
  unfold pushAttribute literalKeywords
  rw [List.filterMap_cons]
  cases Literal.ofNode? kw.2 <;> rfl

theorem run_attributes (t : Table) (call : Call) :
    (call.keywords.forM pushAttribute).run t = (.ok (), t.addAttributes call) := by
  have hliterals : literalKeywords call.keywords = call.keywords.flatMap (fun kw => literalKeywords [kw]) := by
    unfold literalKeywords
    rw [List.filterMap_eq_flatMap_toList]
    congr 1
  unfold addAttributes
  rw [hliterals, List.foldl_flatMap]
  exact InPlace.run_forM (run_pushAttribute t) call.keywords t.attributes

/-- What is read before anything is written does not have to be undone. -/
theorem realizes_ofResult {α : Type} {x : Except Error α} {write : α → InPlace Table Unit} {g : Table → α → Table}
    (h : ∀ t a, (write a).run t = (.ok (), g t a)) :
    InPlace.Realizes (InPlace.ofResult x >>= write) (fun t => x.map (g t)) := by
  intro t
  rw [InPlace.run_bind, InPlace.run_ofResult]
  cases x with
  | error e => rfl
  | ok a => exact h t a

theorem apply_schema_of_isSome (h : t.schema.isSome = true) (call : Call) :
    t.apply (.known .schema call) = .error (.duplicateSchema t.name) := if_pos h

theorem apply_schema_of_not_isSome (h : ¬t.schema.isSome = true) (call : Call) :
    t.apply (.known .schema call) = (Schema.ofCall call).map (fun s => { t with schema := some s }) := if_neg h

/-- The base schema is looked at before it is read: a second one is an error, whatever it says. -/
theorem realizes_schema (call : Call) :
    InPlace.Realizes (schemaInPlace call) (fun t => t.apply (.known .schema call)) := by
  intro t
  unfold schemaInPlace
  rw [InPlace.run_bind, InPlace.run_get]
  by_cases hsome : t.schema.isSome = true
  · rw [InPlace.outcome_of_error (apply_schema_of_isSome hsome call)]
    dsimp only
    rw [if_pos hsome]
    rfl
  · have happly := apply_schema_of_not_isSome hsome call
    dsimp only
    rw [if_neg hsome, InPlace.run_bind, InPlace.run_ofResult]
    cases hs : Schema.ofCall call with
    | error e =>
      rw [hs] at happly
      exact (InPlace.outcome_of_error happly).symm
    | ok s =>
      rw [hs] at happly
      exact (InPlace.outcome_of_ok happly).symm

/-- **A declaration in place is the declaration.** -/
theorem realizes_apply (d : Declaration) : InPlace.Realizes (applyInPlace d) (fun t => t.apply d) := by
  cases d with
  | unknown callee => exact fun t => rfl
  | unnamed => exact fun t => rfl
  | known form call =>
    cases form with
    | tableName => exact realizes_ofResult fun t name => run_writeNames t call name
    | description => exact realizes_ofResult fun _ _ => rfl
    | schema => exact realizes_schema call
    | attributes => exact fun t => run_attributes t call
    | implementation => exact realizes_ofResult fun _ _ => rfl
    | fuzzPaths => exact realizes_ofResult fun _ _ => rfl
    | extendedSchema => exact realizes_ofResult run_writeExtension
    | examples => exact realizes_ofResult fun _ _ => rfl
    | column | foreignKey => exact fun t => rfl

/-! ## What a declaration changes -/

/-- A table with the part of another one that a declaration may change. -/
def owned (t t' : Table) : Declaration → Table
  | .known .tableName _ => { t with name := t'.name, aliases := t'.aliases }
  | .known .description _ => { t with description := t'.description }
  | .known .schema _ => { t with schema := t'.schema }
  | .known .attributes _ => { t with attributes := t'.attributes }
  | .known .implementation _ => { t with implementation := t'.implementation }
  | .known .fuzzPaths _ => { t with fuzzPaths := t'.fuzzPaths }
  | .known .extendedSchema _ => { t with extendedSchemas := t'.extendedSchemas }
  | .known .examples _ => { t with examples := t'.examples }
  | .known .column _ | .known .foreignKey _ | .unknown _ | .unnamed => t

/-- A declaration changes its own part of a table only. There it adds to lists, and of the entries in maps it
    replaces only those under keys that it mentions. -/
structure Keeps (d : Declaration) (t t' : Table) : Prop where
  owned_eq : t' = t.owned t' d
  aliases : t.aliases <+: t'.aliases
  fuzzPaths : t.fuzzPaths <+: t'.fuzzPaths
  examples : t.examples <+: t'.examples
  attributes : ∀ key, (∀ call, d = .known .attributes call → key ∉ call.keywords.map Prod.fst) →
    t'.attributes.get? key = t.attributes.get? key
  extendedSchemas : ∀ platform,
    (∀ call s, d = .known .extendedSchema call → Schema.ofCall call = .ok s → platform ∉ s.platforms) →
    t'.extendedSchemas.get? platform = t.extendedSchemas.get? platform

theorem keeps_self (d : Declaration) (t : Table) : Keeps d t t where
  owned_eq := by
    cases d with
    | known form call => cases form <;> rfl
    | _ => rfl
  aliases := List.prefix_rfl
  fuzzPaths := List.prefix_rfl
  examples := List.prefix_rfl
  attributes := fun _ _ => rfl
  extendedSchemas := fun _ _ => rfl

/-- A keyword that a call does not have leaves its attribute alone. -/
theorem get?_addAttributes_of_not_mem {key : String} (h : key ∉ call.keywords.map Prod.fst) :
    (t.addAttributes call).attributes.get? key = t.attributes.get? key := by
  have hnone : call.scalarsUnder key = [] := by
    unfold Call.scalarsUnder
    rw [List.filter_eq_nil_iff.mpr, List.filterMap_nil]
    intro kw hkw hkey
    exact h (List.mem_map.mpr ⟨kw, hkw, of_decide_eq_true hkey⟩)
  rw [get?_addAttributes, hnone]
  rfl

/-- **A declaration that is applied keeps what is not its own.** -/
theorem keeps_of_apply (h : t.apply d = .ok t') : Keeps d t t' := by
  cases d with
  | unknown callee =>
    cases h
    exact keeps_self _ t
  | unnamed =>
    cases h
    exact keeps_self _ t
  | known form call =>
    cases form with
    | tableName =>
      obtain ⟨name, -, h⟩ := bind_eq_ok.mp h
      cases h
      exact { keeps_self (.known .tableName call) t with
        owned_eq := rfl
        aliases := List.prefix_append _ _ }
    | description =>
      obtain ⟨text, -, h⟩ := bind_eq_ok.mp h
      cases h
      exact { keeps_self (.known .description call) t with owned_eq := rfl }
    | schema =>
      by_cases hsome : t.schema.isSome = true
      · rw [apply_schema_of_isSome hsome] at h
        cases h
      · rw [apply_schema_of_not_isSome hsome] at h
        obtain ⟨s, -, rfl⟩ := map_eq_ok.mp h
        exact { keeps_self (.known .schema call) t with owned_eq := rfl }
    | attributes =>
      cases h
      exact { keeps_self (.known .attributes call) t with
        owned_eq := rfl
        attributes := fun key hkey => get?_addAttributes_of_not_mem (hkey call rfl) }
    | implementation =>
      obtain ⟨text, -, h⟩ := bind_eq_ok.mp h
      cases h
      exact { keeps_self (.known .implementation call) t with owned_eq := rfl }
    | fuzzPaths =>
      obtain ⟨paths, -, h⟩ := bind_eq_ok.mp h
      cases h
      exact { keeps_self (.known .fuzzPaths call) t with
        owned_eq := rfl
        fuzzPaths := List.prefix_append _ _ }
    | extendedSchema =>
      obtain ⟨s, hs, h⟩ := bind_eq_ok.mp h
      cases h
      exact { keeps_self (.known .extendedSchema call) t with
        owned_eq := rfl
        extendedSchemas := fun platform hplatform => by
          rw [get?_addExtendedSchema, if_neg (hplatform call s rfl hs)] }
    | examples =>
      obtain ⟨examples, -, h⟩ := bind_eq_ok.mp h
      cases h
      exact { keeps_self (.known .examples call) t with
        owned_eq := rfl
        examples := List.prefix_append _ _ }
    | column | foreignKey =>
      cases h
      exact keeps_self _ t

/-- **A declaration is applied as a whole or not at all.** A change in place that ends in an error has left the
    table as it was, wherever in the declaration the error comes from. Any other makes the table that the
    declaration stands for, and what is not the declaration's own part is as it was. -/
theorem applyInPlace_atomic (t : Table) (d : Declaration) :
    (∀ e t', (applyInPlace d).run t = (.error e, t') ↔ t.apply d = .error e ∧ t' = t) ∧
    (∀ t', (applyInPlace d).run t = (.ok (), t') ↔ t.apply d = .ok t') ∧
    (∀ t', t.apply d = .ok t' → Keeps d t t') := by
  have hrun : (applyInPlace d).run t = InPlace.outcome (fun t => t.apply d) t := realizes_apply d t
  refine ⟨?_, ?_, fun t' ht' => keeps_of_apply ht'⟩
  · intro e t'
    rw [hrun]
    cases happly : t.apply d with
    | error e' =>
      rw [InPlace.outcome_of_error happly]
      simp [eq_comm]
    | ok t'' =>
      rw [InPlace.outcome_of_ok happly]
      simp
  · intro t'
    rw [hrun]
    cases happly : t.apply d with
    | error e =>
      rw [InPlace.outcome_of_error happly]
      simp
    | ok t'' =>
      rw [InPlace.outcome_of_ok happly]
      simp

end Table
end TableSpec
