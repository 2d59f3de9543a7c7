import Mathlib.Data.List.Forall2
import TableSpec.Proofs.Extraction.Meaning

/-!
# `Proofs.Extraction.Schema` — what the call for a schema declares

The call for a schema holds one list, and what stands in it is told apart by name and by arguments: foreign keys
go one way, columns another, and an element without positional arguments goes nowhere. Here it is said of the
whole call which lists are taken (`Call.Lists`), what schema such a call stands for (`Schema.DeclaredBy`), and what
is wrong with any other (`Schema.Fault`).

The list is read from its front. What has been read of it is kept by `Schema.Collects`, where the columns have the
indices from 0 on, so that the next index is the number of columns and no longer the position in the list.

## Contents
- `Call.isForeignKey`, `Call.isColumn`; `Column.DeclaredBy`: a column and the call for it.
- `Schema.Collects`, `collects_addElement`, `collects_addElements`: the elements of a list, one and all.
- `ElementFault`, `addElements_fault`, `allNamed_or_fault`: what is wrong with a list, and where it is.
- `addArgument_eq`: the argument with the platforms, in whichever way it is written.
- `Call.Opens`, `Call.Lists`, `Schema.DeclaredBy`, `Schema.Fault`, and `Schema.ofCall_exact`.
-/

namespace TableSpec

/-! ## Calls -/

/-- Whether an element of a list is a foreign key. -/
def Call.isForeignKey (call : Call) : Bool := decide (call.calleeName? = some "ForeignKey")

/-- Whether an element of a list is a column. -/
def Call.isColumn (call : Call) : Bool := !call.isForeignKey && !call.args.isEmpty

/-- Whether a call is to a bare name. -/
def Call.isNamed (call : Call) : Bool := call.calleeName?.isSome

/-- The position of the list among the arguments of a call; an extended schema has its platforms before it. -/
def Call.listPosition (callee : String) : Nat := if callee = "extended_schema" then 1 else 0

/-- A call is to a bare name, and an extended schema has an argument that names these platforms. -/
structure Call.Opens (call : Call) (callee : String) (platforms : List String) : Prop where
  callee_eq : call.calleeName? = some callee
  extended : callee = "extended_schema" →
    ∃ argument, call.arg? 0 = some argument ∧ Platform.ofArgument argument = .ok platforms
  base : callee ≠ "extended_schema" → platforms = []

/-- What a call needs to declare a schema: a list of calls to bare names in its place. -/
structure Call.Lists (call : Call) (callee : String) (platforms : List String) (elements : List Call) : Prop where
  opens : call.Opens callee platforms
  list : call.arg? (Call.listPosition callee) = some (.list (elements.map Call.node))
  named : ∀ element ∈ elements, element.isNamed = true

/-- The options of a call: of several literals under a keyword the last one counts. -/
def Call.HasOptions (call : Call) (options : KeyMap Scalar) : Prop :=
  ∀ keyword, options.get? keyword = (call.scalarsUnder keyword).getLast?

/-- What a column takes from its call. -/
structure Column.DeclaredBy (call : Call) (c : Column) : Prop where
  name_eq : c.name = call.text?.getD ""
  typeName_eq : c.typeName = ((call.arg? 1).bind Node.asName?).getD ""
  description_eq : c.description = ((call.arg? 2).bind Node.asText?).getD ""
  aliases_eq : c.aliases = []
  options : call.HasOptions c.options

theorem Column.declaredBy_ofCall (call : Call) (index : Nat) : (Column.ofCall call index).DeclaredBy call where
  name_eq := rfl
  typeName_eq := rfl
  description_eq := rfl
  aliases_eq := rfl
  options := get?_ofList_literalKeywords call

namespace Schema

variable {s : Schema} {elements before rest : List Call} {call : Call} {callee : String}

/-- A schema holds the columns and the foreign keys of a list of calls, and nothing else. -/
structure Collects (elements : List Call) (s : Schema) : Prop where
  columns : List.Forall₂ Column.DeclaredBy (elements.filter Call.isColumn) s.columns
  indices : s.columns.map Column.index = List.range s.columns.length
  foreignKeys : List.Forall₂ Call.HasOptions (elements.filter Call.isForeignKey) s.foreignKeys

theorem collects_nil {platforms : KeySet} {extended : Bool} :
    Collects [] { platforms := platforms, extended := extended } where
  columns := .nil
  indices := rfl
  foreignKeys := .nil

/-! ## One element -/

theorem callee_of_name (h : call.calleeName? = some callee) : call.callee = .name callee :=
  Node.asName?_eq_some.mp h

/-- What becomes of an element is decided by its name and by whether it has arguments. -/
theorem addElement_of_name (h : call.calleeName? = some callee) (s : Schema) (context : String) :
    s.addElement context call.node =
      if callee = "ForeignKey" then
        .ok { s with foreignKeys := s.foreignKeys ++ [.ofList (literalKeywords call.keywords)] }
      else if call.args.isEmpty then .ok s
      else .ok { s with columns := s.columns ++ [Column.ofCall call s.columns.length] } := by
  have hcallee := callee_of_name h
  obtain ⟨node, args, keywords⟩ := call
  obtain rfl : node = .name callee := hcallee
  rfl

theorem isColumn_eq_false (h : call.isForeignKey = true) : call.isColumn = false := by
  unfold Call.isColumn
  rw [h]
  rfl

/-- One more element is a foreign key, a column that takes the next index, or left out. -/
theorem collects_addElement (hs : Collects before s) (hnamed : call.isNamed = true) (context : String) :
    ∃ s', s.addElement context call.node = .ok s' ∧ Collects (before ++ [call]) s' ∧
      s'.platforms = s.platforms ∧ s'.extended = s.extended := by
  obtain ⟨callee, hcallee⟩ := Option.isSome_iff_exists.mp hnamed
  have hpass : ∀ p : Call → Bool, ¬p call = true → (before ++ [call]).filter p = before.filter p := by
    intro p hp
    rw [List.filter_append, List.filter_cons_of_neg hp, List.filter_nil, List.append_nil]
  rw [addElement_of_name hcallee]
  by_cases hkey : callee = "ForeignKey"
  · have hforeign : call.isForeignKey = true := decide_eq_true (hkey ▸ hcallee)
    rw [if_pos hkey]
    refine ⟨_, rfl, ⟨?_, hs.indices, ?_⟩, rfl, rfl⟩
    · rw [hpass Call.isColumn (by simp [isColumn_eq_false hforeign])]
      exact hs.columns
    · rw [List.filter_append, List.filter_cons_of_pos hforeign]
      exact List.rel_append hs.foreignKeys (.cons (get?_ofList_literalKeywords call) .nil)
  have hforeign : call.isForeignKey = false := by
    apply decide_eq_false
    rw [hcallee]
    exact fun h => hkey (Option.some.inj h)
  have hkeys : (before ++ [call]).filter Call.isForeignKey = before.filter Call.isForeignKey :=
    hpass Call.isForeignKey (by simp [hforeign])
  rw [if_neg hkey]
  by_cases hargs : call.args.isEmpty = true
  · rw [if_pos hargs]
    refine ⟨s, rfl, ⟨?_, hs.indices, ?_⟩, rfl, rfl⟩
    · rw [hpass Call.isColumn (by simp [Call.isColumn, hargs])]
      exact hs.columns
    · rw [hkeys]
      exact hs.foreignKeys
  · have hcolumn : call.isColumn = true := by simp [Call.isColumn, hforeign, hargs]
    rw [if_neg hargs]
    refine ⟨_, rfl, ⟨?_, ?_, ?_⟩, rfl, rfl⟩
    · rw [List.filter_append, List.filter_cons_of_pos hcolumn]
      exact List.rel_append hs.columns (.cons (Column.declaredBy_ofCall call s.columns.length) .nil)
    · rw [List.map_append, hs.indices, List.length_append, List.length_singleton, List.range_succ]
      rfl
    · rw [hkeys]
      exact hs.foreignKeys

/-- What is wrong with an element of a list. -/
inductive ElementFault (context : String) : Node → Error → Prop where
  | notCall {node : Node} : (∀ call : Call, node ≠ call.node) →
      ElementFault context node (.unexpected context "call" node.describe)
  | notNamed {call : Call} : call.isNamed = false →
      ElementFault context call.node (.unexpected context "call to a bare name" call.callee.describe)

theorem addElement_fault {node : Node} {e : Error} (h : ElementFault context node e) (s : Schema) :
    s.addElement context node = .error e := by
  cases h with
  | notCall hnot =>
    cases node with
    | call callee args keywords => exact absurd rfl (hnot ⟨callee, args, keywords⟩)
    | _ => rfl
  | @notNamed call hnot =>
    obtain ⟨callee, args, keywords⟩ := call
    cases callee with
    | name id => cases hnot
    | _ => rfl

/-- An element is a call to a bare name, or something is wrong with it. -/
theorem named_or_fault (context : String) (node : Node) :
    (∃ call : Call, node = call.node ∧ call.isNamed = true) ∨ ∃ e, ElementFault context node e := by
  by_cases hcall : ∃ call : Call, node = call.node
  · obtain ⟨call, rfl⟩ := hcall
    by_cases hnamed : call.isNamed = true
    · exact Or.inl ⟨call, rfl, hnamed⟩
    · exact Or.inr ⟨_, .notNamed (Bool.eq_false_iff.mpr hnamed)⟩
  · exact Or.inr ⟨_, .notCall fun call h => hcall ⟨call, h⟩⟩

/-! ## All elements -/

/-- Calls to bare names are read one after the other. The induction is on what is still to be read. -/
theorem collects_addElements (hrest : ∀ call ∈ rest, call.isNamed = true) (hs : Collects before s) (callee : String)
    (position : Nat) :
    ∃ s', addElements callee s position (rest.map Call.node) = .ok s' ∧ Collects (before ++ rest) s' ∧
      s'.platforms = s.platforms ∧ s'.extended = s.extended := by
  induction rest generalizing before s position with
  | nil => exact ⟨s, rfl, by rwa [List.append_nil], rfl, rfl⟩
  | cons call rest ih =>
    obtain ⟨s₁, hfirst, hs₁, hplatforms₁, hextended₁⟩ :=
      collects_addElement hs (hrest call List.mem_cons_self) s!"{callee} column {position}"
    obtain ⟨s₂, hafter, hs₂, hplatforms₂, hextended₂⟩ :=
      ih (fun c hc => hrest c (List.mem_cons_of_mem call hc)) hs₁ (position + 1)
    refine ⟨s₂, bind_eq_ok.mpr ⟨s₁, hfirst, hafter⟩, ?_, ?_, ?_⟩
    · rwa [List.append_assoc, List.singleton_append] at hs₂
    · rw [hplatforms₂, hplatforms₁]
    · rw [hextended₂, hextended₁]

/-- Elements are taken in one after the other, so that positions go on behind the front part. -/
theorem addElements_append (callee : String) (s : Schema) (position : Nat) (front back : List Node) :
    addElements callee s position (front ++ back) =
      (addElements callee s position front).bind
        (fun s' => addElements callee s' (position + front.length) back) := by
  induction front generalizing s position with
  | nil => rfl
  | cons node front ih =>
    rw [List.cons_append, addElements, addElements]
    cases s.addElement s!"{callee} column {position}" node with
    | error e => rfl
    | ok s₁ =>
      show addElements callee s₁ (position + 1) (front ++ back) = _
      rw [ih, List.length_cons, Nat.add_assoc, Nat.add_comm 1]
      rfl

/-- The first element with which something is wrong is the one in the error. -/
theorem addElements_fault {node : Node} {e : Error} (hnamed : ∀ call ∈ elements, call.isNamed = true)
    (h : ElementFault s!"{callee} column {elements.length}" node e) (hs : Collects [] s) (after : List Node) :
    addElements callee s 0 (elements.map Call.node ++ node :: after) = .error e := by
  obtain ⟨s', hfront, -⟩ := collects_addElements hnamed hs callee 0
  rw [addElements_append, hfront, List.length_map, Nat.zero_add]
  show (s'.addElement s!"{callee} column {elements.length}" node).bind _ = _
  rw [addElement_fault h]
  rfl

/-- The elements of a list are calls to bare names, or there is a first one with which something is wrong. -/
theorem allNamed_or_fault (callee : String) (nodes : List Node) :
    (∃ elements : List Call, nodes = elements.map Call.node ∧ ∀ call ∈ elements, call.isNamed = true) ∨
    ∃ (elements : List Call) (node : Node) (after : List Node) (e : Error),
      nodes = elements.map Call.node ++ node :: after ∧ (∀ call ∈ elements, call.isNamed = true) ∧
      ElementFault s!"{callee} column {elements.length}" node e := by
  induction nodes using List.reverseRecOn with
  | nil => exact Or.inl ⟨[], rfl, by simp⟩
  | append_singleton nodes node ih =>
    rcases ih with ⟨elements, rfl, hnamed⟩ | ⟨elements, bad, after, e, rfl, hnamed, hfault⟩
    · rcases named_or_fault s!"{callee} column {elements.length}" node with ⟨call, rfl, hcall⟩ | ⟨e, hfault⟩
      · refine Or.inl ⟨elements ++ [call], by simp, ?_⟩
        intro c hc
        rcases List.mem_append.mp hc with hc | hc
        · exact hnamed c hc
        · rwa [List.mem_singleton.mp hc]
      · exact Or.inr ⟨elements, node, [], e, rfl, hnamed, hfault⟩
    · exact Or.inr ⟨elements, bad, after ++ [node], e, by simp, hnamed, hfault⟩

/-! ## The platforms -/

/-- The two ways to write the platforms of an extended schema come to the same. -/
theorem addArgument_eq (s : Schema) (argument : Node) :
    s.addArgument argument = (Platform.ofArgument argument).map s.addPlatforms := by
  cases argument <;> rfl

variable {platforms : List String}

/-- A schema with nothing in it yet. -/
def opened (callee : String) (platforms : List String) : Schema :=
  ({ extended := decide (callee = "extended_schema") } : Schema).addPlatforms platforms

/-- An extended schema has its platforms before its list. -/
theorem ofCall_of_arg {argument : Node} (hcallee : call.calleeName? = some "extended_schema")
    (harg : call.arg? 0 = some argument) :
    ofCall call = ((Platform.ofArgument argument).map (opened "extended_schema")).bind
      (fun s => s.addList "extended_schema" call 1) := by
  unfold ofCall
  rw [callee_of_name hcallee]
  show (if "extended_schema" = "extended_schema" then _ else _) = _
  rw [if_pos rfl, harg]
  show (({ extended := true } : Schema).addArgument argument).bind _ = _
  rw [addArgument_eq]
  rfl

theorem ofCall_of_opens (h : call.Opens callee platforms) :
    ofCall call = (opened callee platforms).addList callee call (Call.listPosition callee) := by
  by_cases hextended : callee = "extended_schema"
  · subst hextended
    obtain ⟨argument, harg, hplatforms⟩ := h.extended rfl
    rw [ofCall_of_arg h.callee_eq harg, hplatforms]
    rfl
  · unfold ofCall opened Call.listPosition
    rw [callee_of_name h.callee_eq, h.base hextended, decide_eq_false hextended, if_neg hextended]
    show (if callee = "extended_schema" then _ else _) = _
    rw [if_neg hextended]
    rfl

/-! ## The call -/

/-- The schema that a call declares. -/
structure DeclaredBy (callee : String) (platforms : List String) (elements : List Call) (s : Schema) :
    Prop extends Collects elements s where
  extended_iff : s.extended = true ↔ callee = "extended_schema"
  mem_platforms : ∀ platform, platform ∈ s.platforms ↔ platform ∈ platforms

/-- What is wrong with a call that declares no schema. -/
inductive Fault (call : Call) : Error → Prop where
  | notNamed : call.isNamed = false →
      Fault call (.unexpected "schema callee" "name" call.callee.describe)
  | noPlatform : call.calleeName? = some "extended_schema" → call.arg? 0 = none →
      Fault call (.unexpected "extended_schema argument 0" "platform" none)
  | platform {argument : Node} {e : Error} : call.calleeName? = some "extended_schema" →
      call.arg? 0 = some argument → Platform.ofArgument argument = .error e → Fault call e
  | notList {callee : String} {platforms : List String} : call.Opens callee platforms →
      (∀ items, call.arg? (Call.listPosition callee) ≠ some (.list items)) →
      Fault call (.unexpected s!"{callee} argument {Call.listPosition callee}" "list"
        ((call.arg? (Call.listPosition callee)).map Node.describe))
  | element {callee : String} {platforms : List String} {elements : List Call} {node : Node} {after : List Node}
      {e : Error} : call.Opens callee platforms →
      call.arg? (Call.listPosition callee) = some (.list (elements.map Call.node ++ node :: after)) →
      (∀ element ∈ elements, element.isNamed = true) →
      ElementFault s!"{callee} column {elements.length}" node e → Fault call e

theorem ofCall_of_lists (h : call.Lists callee platforms elements) :
    ∃ s, ofCall call = .ok s ∧ s.DeclaredBy callee platforms elements := by
  obtain ⟨s, hs, hcollects, hplatforms, hextended⟩ :=
    collects_addElements h.named (show Collects [] (opened callee platforms) from collects_nil) callee 0
  refine ⟨s, ?_, hcollects, ?_, ?_⟩
  · rw [ofCall_of_opens h.opens]
    unfold addList
    rw [h.list]
    exact hs
  · rw [hextended]
    exact decide_eq_true_iff
  · intro platform
    rw [hplatforms]
    show platform ∈ KeySet.empty.union platforms ↔ _
    simp

/-- **Whatever is wrong with a call is the error of its schema.** -/
theorem ofCall_of_fault {e : Error} (h : Fault call e) : ofCall call = .error e := by
  cases h with
  | notNamed hnot =>
    obtain ⟨callee, args, keywords⟩ := call
    cases callee with
    | name id => cases hnot
    | _ => rfl
  | noPlatform hcallee harg =>
    unfold ofCall
    rw [callee_of_name hcallee]
    show (if "extended_schema" = "extended_schema" then _ else _) = _
    rw [if_pos rfl, harg]
  | platform hcallee harg herror =>
    rw [ofCall_of_arg hcallee harg, herror]
    rfl
  | notList hopens hnot =>
    rw [ofCall_of_opens hopens]
    unfold addList
    split
    · rename_i items hitems
      exact absurd hitems (hnot items)
    · rfl
  | element hopens hlist hnamed hfault =>
    rw [ofCall_of_opens hopens]
    unfold addList
    rw [hlist]
    exact addElements_fault hnamed hfault collects_nil _

/-- A call opens a schema, or something is wrong with it. -/
theorem opens_or_fault (call : Call) :
    (∃ callee platforms, call.Opens callee platforms) ∨ ∃ e, Fault call e := by
  cases hname : call.calleeName? with
  | none => exact Or.inr ⟨_, .notNamed (by simp [Call.isNamed, hname])⟩
  | some callee =>
    by_cases hextended : callee = "extended_schema"
    · subst hextended
      cases harg : call.arg? 0 with
      | none => exact Or.inr ⟨_, .noPlatform hname harg⟩
      | some argument =>
        cases hplatforms : Platform.ofArgument argument with
        | error e => exact Or.inr ⟨e, .platform hname harg hplatforms⟩
        | ok platforms =>
          exact Or.inl ⟨_, platforms, hname, fun _ => ⟨argument, harg, hplatforms⟩, fun h => absurd rfl h⟩
    · exact Or.inl ⟨callee, [], hname, fun h => absurd h hextended, fun _ => rfl⟩

/-- A call declares a schema, or something is wrong with it. -/
theorem lists_or_fault (call : Call) :
    (∃ callee platforms elements, call.Lists callee platforms elements) ∨ ∃ e, Fault call e := by
  rcases opens_or_fault call with ⟨callee, platforms, hopens⟩ | hfault
  · by_cases hlist : ∃ items, call.arg? (Call.listPosition callee) = some (.list items)
    · obtain ⟨items, hitems⟩ := hlist
      rcases allNamed_or_fault callee items with ⟨elements, rfl, hnamed⟩ | ⟨elements, node, after, e, rfl, hnamed, he⟩
      · exact Or.inl ⟨callee, platforms, elements, hopens, hitems, hnamed⟩
      · exact Or.inr ⟨e, .element hopens hitems hnamed he⟩
    · exact Or.inr ⟨_, .notList hopens fun items hitems => hlist ⟨items, hitems⟩⟩
  · exact Or.inr hfault

/-- A schema is only declared by a call that lists what is in it. -/
theorem declaredBy_of_ofCall (h : ofCall call = .ok s) : ∃ callee platforms elements,
    call.Lists callee platforms elements ∧ s.DeclaredBy callee platforms elements := by
  rcases lists_or_fault call with ⟨callee, platforms, elements, hlists⟩ | ⟨e, he⟩
  · obtain ⟨s', hs', hdeclared⟩ := ofCall_of_lists hlists
    rw [h] at hs'
    cases hs'
    exact ⟨callee, platforms, elements, hlists, hdeclared⟩
  · rw [ofCall_of_fault he] at h
    cases h

/-- **What the call for a schema declares.** It declares one just when it is a call to a bare name, an extended
    schema has a first argument that names platforms, and there is a list of calls to bare names in its place. The
    schema is then made of the foreign keys and the columns in this list and of these platforms, and the columns
    are numbered without gaps. Otherwise the error tells the first thing that is wrong. -/
theorem ofCall_exact (call : Call) :
    ((∃ s, ofCall call = .ok s) ↔ ∃ callee platforms elements, call.Lists callee platforms elements) ∧
    (∀ s, ofCall call = .ok s → ∃ callee platforms elements,
      call.Lists callee platforms elements ∧ s.DeclaredBy callee platforms elements) ∧
    (∀ e, ofCall call = .error e ↔ Fault call e) := by
  apply decided
  · rintro ⟨callee, platforms, elements, h⟩
    obtain ⟨s, hs, hdeclared⟩ := ofCall_of_lists h
    exact ⟨s, hs, callee, platforms, elements, h, hdeclared⟩
  · intro e he
    exact ofCall_of_fault he
  · exact lists_or_fault call

/-- A foreign key and a placeholder between two columns leave no gap. -/
example : (ofCall ⟨.name "schema", [.list [
      .call (.name "Column") [.str "path"] [],
      .call (.name "ForeignKey") [] [("table", .str "users")],
      .call (.name "Placeholder") [] [],
      .call (.name "Column") [.str "mode"] []]], []⟩).map (fun s => s.columns.map fun c => (c.index, c.name)) =
    .ok [(0, "path"), (1, "mode")] := rfl

end Schema
end TableSpec
