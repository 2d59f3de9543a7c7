import Mathlib.Data.List.Induction
import TableSpec.Extraction
import TableSpec.Proofs.Result

/-!
# `Proofs.Extraction.Meaning` — what the declarations of a file say together

A table is made by applying declarations one after the other, and they do it in different ways: some replace
what was there, some add to it, one may occur only once, and most calls mean nothing. Here it is said of the
whole list of declarations at once what table it stands for (`Table.Declares`), when it stands for one
(`Acceptable`), and what is wrong otherwise (`Fault`).

The three belong together: after declarations that stand for a table, a further one either adds to its meaning
or is at fault (`apply_of_fits`, `apply_of_fault`, `fits_or_fault`). So a list stands for a table just when no
declaration in it is at fault, and the first one that is decides what the error is.

## Contents
- `calls`: the calls of one form. `Declaration.Accepted`, `Acceptable`.
- `Table.Declares`: the table, field by field.
- `Fault`: what is wrong with a declaration after others.
- `apply_of_fits`, `apply_of_fault`, `fits_or_fault`: one more declaration. `declares_of_acceptable`,
  `error_of_fault`, `acceptable_or_fault`: a whole list.
- `Table.ofNode_meaning`: the table of a syntax tree.
-/

namespace TableSpec

/-! ## The declarations of one form -/

/-- The call of a declaration of this form. -/
def Declaration.callOf? (form : Form) : Declaration → Option Call
  | known form' call => if form' = form then some call else none
  | unknown _ | unnamed => none

/-- The call of a declaration of a form is the one that was classified so. -/
theorem Declaration.callOf?_eq_some {form : Form} {d : Declaration} {call : Call} :
    d.callOf? form = some call ↔ d = .known form call := by
  cases d with
  | known form' call' =>
    unfold callOf?
    by_cases h : form' = form
    · simp [h]
    · simp [h]
  | unknown callee => simp [callOf?]
  | unnamed => simp [callOf?]

/-- The calls of all declarations of a form, in order. -/
def calls (form : Form) (ds : List Declaration) : List Call := ds.filterMap (Declaration.callOf? form)

/-- The calls of a form are those that were classified so. -/
theorem mem_calls {form : Form} {ds : List Declaration} {call : Call} :
    call ∈ calls form ds ↔ .known form call ∈ ds := by
  unfold calls
  rw [List.mem_filterMap]
  constructor
  · rintro ⟨d, hd, hcall⟩
    rwa [← Declaration.callOf?_eq_some.mp hcall]
  · intro hd
    exact ⟨_, hd, Declaration.callOf?_eq_some.mpr rfl⟩

@[simp] theorem calls_nil (form : Form) : calls form [] = [] := rfl

/-- One more declaration adds its call to those of its own form, and to no others. -/
@[simp] theorem calls_concat_known (form form' : Form) (call : Call) (ds : List Declaration) :
    calls form (ds ++ [.known form' call]) = if form' = form then calls form ds ++ [call] else calls form ds := by
  unfold calls
  rw [List.filterMap_append]
  by_cases h : form' = form
  · simp [Declaration.callOf?, h]
  · simp [Declaration.callOf?, h]

@[simp] theorem calls_concat_unknown (form : Form) (callee : String) (ds : List Declaration) :
    calls form (ds ++ [.unknown callee]) = calls form ds := by
  unfold calls
  rw [List.filterMap_append]
  simp [Declaration.callOf?]

@[simp] theorem calls_concat_unnamed (form : Form) (ds : List Declaration) :
    calls form (ds ++ [.unnamed]) = calls form ds := by
  unfold calls
  rw [List.filterMap_append]
  simp [Declaration.callOf?]

/-! ## Arguments -/

/-- Whether the first argument of a form has to be a text. -/
def Form.takesText : Form → Bool
  | tableName | description | implementation => true
  | schema | column | attributes | fuzzPaths | extendedSchema | examples | foreignKey => false

/-- Whether the first argument of a form has to be a list of texts. -/
def Form.takesTexts : Form → Bool
  | fuzzPaths | examples => true
  | tableName | description | schema | column | attributes | implementation | extendedSchema | foreignKey => false

/-- The text that a call has as its first argument. -/
def Call.text? (call : Call) : Option String := (call.arg? 0).bind Node.asText?

/-- The texts in a list; what is no list holds none. -/
def Node.texts : Node → List String
  | .list items => items.filterMap Node.asText?
  | _ => []

/-- The texts in the list that a call has as its first argument. -/
def Call.texts (call : Call) : List String := ((call.arg? 0).map Node.texts).getD []

/-- The texts in all lists that a call has under a keyword. -/
def Call.textsUnder (keyword : String) (call : Call) : List String :=
  (call.keywords.filter (fun kw => kw.1 = keyword)).flatMap (fun kw => kw.2.texts)

/-- The option values of all literals that a call has under a keyword. -/
def Call.scalarsUnder (keyword : String) (call : Call) : List Scalar :=
  (call.keywords.filter (fun kw => kw.1 = keyword)).filterMap (fun kw => (Literal.ofNode? kw.2).map Literal.scalar)

/-- The schema that a call declares, if it declares one. -/
def Call.schema? (call : Call) : Option Schema := (Schema.ofCall call).toOption

/-- The first argument is taken as text when it is a string. -/
theorem textArgument_of_text {form : Form} {call : Call} {s : String} (h : call.arg? 0 = some (.str s)) :
    textArgument form call = .ok s := by
  unfold textArgument
  rw [h]

/-- Anything else in its place is an error that tells what was found there. -/
theorem textArgument_of_not_text {form : Form} {call : Call} (h : ∀ s, call.arg? 0 ≠ some (.str s)) :
    textArgument form call =
      .error (.unexpected s!"{form.word} argument 0" "string" ((call.arg? 0).map Node.describe)) := by
  unfold textArgument
  split
  · rename_i s hs
    exact absurd hs (h s)
  · rfl

theorem text?_of_text {call : Call} {s : String} (h : call.arg? 0 = some (.str s)) : call.text? = some s := by
  unfold Call.text?
  rw [h]
  rfl

theorem schema?_eq_some {call : Call} {s : Schema} : call.schema? = some s ↔ Schema.ofCall call = .ok s := by
  unfold Call.schema?
  cases Schema.ofCall call with
  | ok s' => simp [Except.toOption]
  | error e => simp [Except.toOption]

/-- Strings are all taken, whatever the position that is counted from. -/
theorem textElements_texts (form : Form) (texts : List String) :
    ∀ position, textElements form position (texts.map .str) = .ok texts := by
  induction texts with
  | nil => exact fun _ => rfl
  | cons s rest ih =>
    intro position
    rw [List.map_cons, textElements, ih]
    rfl

/-- The first element that is no text is the one in the error. -/
theorem textElements_of_not_text (form : Form) {node : Node} (hnode : ∀ s, node ≠ .str s) (rest : List Node)
    (texts : List String) : ∀ position,
      textElements form position (texts.map .str ++ node :: rest) =
        .error (.unexpected s!"{form.word} list element {position + texts.length}" "string" node.describe) := by
  induction texts with
  | nil =>
    intro position
    cases node with
    | str s => exact absurd rfl (hnode s)
    | _ => rfl
  | cons s texts ih =>
    intro position
    rw [List.map_cons, List.cons_append, textElements, ih]
    show Except.error _ = _
    rw [List.length_cons, Nat.add_assoc, Nat.add_comm 1]

/-- A list of nodes is one of texts only, or there is a first node in it that is no text. -/
theorem texts_or_not (nodes : List Node) : (∃ texts : List String, nodes = texts.map .str) ∨
    ∃ (texts : List String) (node : Node) (rest : List Node),
      nodes = texts.map .str ++ node :: rest ∧ ∀ s, node ≠ .str s := by
  induction nodes with
  | nil => exact Or.inl ⟨[], rfl⟩
  | cons node nodes ih =>
    by_cases hnode : ∃ s, node = .str s
    · obtain ⟨s, rfl⟩ := hnode
      rcases ih with ⟨texts, rfl⟩ | ⟨texts, node', rest, rfl, hnode'⟩
      · exact Or.inl ⟨s :: texts, rfl⟩
      · exact Or.inr ⟨s :: texts, node', rest, rfl, hnode'⟩
    · exact Or.inr ⟨[], node, nodes, rfl, fun s hs => hnode ⟨s, hs⟩⟩

theorem texts_of_list (texts : List String) : (Node.list (texts.map .str)).texts = texts := by
  show (texts.map Node.str).filterMap Node.asText? = texts
  induction texts with
  | nil => rfl
  | cons s rest ih =>
    rw [List.map_cons, List.filterMap_cons]
    exact congrArg (s :: ·) ih

/-- A list of strings gives these strings. -/
theorem textListArgument_of_texts {form : Form} {call : Call} {texts : List String}
    (h : call.arg? 0 = some (.list (texts.map .str))) : textListArgument form call = .ok call.texts := by
  unfold textListArgument Call.texts
  rw [h]
  show textElements form 0 (texts.map .str) = .ok (Node.list (texts.map .str)).texts
  rw [textElements_texts, texts_of_list]

/-- What is no list is an error that tells what was found in its place. -/
theorem textListArgument_of_not_list {form : Form} {call : Call} (h : ∀ items, call.arg? 0 ≠ some (.list items)) :
    textListArgument form call =
      .error (.unexpected s!"{form.word} argument 0" "list" ((call.arg? 0).map Node.describe)) := by
  unfold textListArgument
  split
  · rename_i items hitems
    exact absurd hitems (h items)
  · rfl

/-- The first element that is no string is an error, which tells its position. -/
theorem textListArgument_of_not_texts {form : Form} {call : Call} {texts : List String} {node : Node}
    {rest : List Node} (h : call.arg? 0 = some (.list (texts.map .str ++ node :: rest)))
    (hnode : ∀ s, node ≠ .str s) :
    textListArgument form call =
      .error (.unexpected s!"{form.word} list element {texts.length}" "string" node.describe) := by
  unfold textListArgument
  rw [h]
  show textElements form 0 (texts.map .str ++ node :: rest) = _
  rw [textElements_of_not_text form hnode, Nat.zero_add]

/-- Aliases are the texts under one keyword, which may come several times. -/
theorem aliasKeywords_eq (call : Call) : aliasKeywords call = call.textsUnder "aliases" := by
  unfold aliasKeywords Call.textsUnder
  induction call.keywords with
  | nil => rfl
  | cons kw rest ih =>
    obtain ⟨keyword, value⟩ := kw
    rw [List.flatMap_cons, ih]
    by_cases hkw : keyword = "aliases"
    · rw [List.filter_cons_of_pos (by simpa using hkw), List.flatMap_cons]
      congr 1
      cases value <;> simp [Node.texts, hkw]
    · rw [List.filter_cons_of_neg (by simpa using hkw)]
      cases value <;> simp [hkw]

/-! ## Maps that are filled in order -/

/-- Of several literals under a keyword the last one counts, and what is no literal does not. -/
theorem get?_foldl_literalKeywords (call : Call) (m : KeyMap Scalar) (key : String) :
    ((literalKeywords call.keywords).foldl (fun m e => m.insert e.1 e.2) m).get? key =
      (call.scalarsUnder key).getLast?.or (m.get? key) := by
  unfold Call.scalarsUnder literalKeywords
  induction call.keywords generalizing m with
  | nil => rfl
  | cons kw rest ih =>
    obtain ⟨keyword, value⟩ := kw
    rw [List.filterMap_cons]
    by_cases hkey : keyword = key
    · rw [List.filter_cons_of_pos (by simpa using hkey), List.filterMap_cons]
      cases Literal.ofNode? value with
      | none => exact ih m
      | some literal =>
        simp only [Option.map_some, List.foldl_cons]
        rw [ih, KeyMap.get?_insert, if_pos hkey.symm, List.getLast?_cons]
        cases List.getLast? _ <;> rfl
    · rw [List.filter_cons_of_neg (by simpa using hkey)]
      cases Literal.ofNode? value with
      | none => exact ih m
      | some literal =>
        simp only [Option.map_some, List.foldl_cons]
        rw [ih, KeyMap.get?_insert, if_neg (Ne.symm hkey)]

/-- Of several keywords with one key the last one counts, and without any the attribute stays as it is. -/
theorem get?_addAttributes (t : Table) (call : Call) (key : String) :
    (t.addAttributes call).attributes.get? key =
      (call.scalarsUnder key).getLast?.or (t.attributes.get? key) :=
  get?_foldl_literalKeywords call t.attributes key

/-- The options that a call gives by its keywords. -/
theorem get?_ofList_literalKeywords (call : Call) (key : String) :
    (KeyMap.ofList (literalKeywords call.keywords)).get? key = (call.scalarsUnder key).getLast? := by
  unfold KeyMap.ofList
  rw [get?_foldl_literalKeywords, KeyMap.get?_empty, Option.or_none]

/-- A schema is registered for each of its platforms and no other. -/
theorem get?_addExtendedSchema (t : Table) (s : Schema) (platform : String) :
    (t.addExtendedSchema s).extendedSchemas.get? platform =
      if platform ∈ s.platforms then some s else t.extendedSchemas.get? platform := by
  have hnames : ∀ (names : List String) (m : KeyMap Schema),
      (names.foldl (fun m p => m.insert p s) m).get? platform =
        if platform ∈ names then some s else m.get? platform := by
    intro names
    induction names with
    | nil => simp
    | cons n rest ih =>
      intro m
      rw [List.foldl_cons, ih, KeyMap.get?_insert]
      by_cases hrest : platform ∈ rest
      · simp [hrest]
      · by_cases hn : platform = n <;> simp [hrest, hn]
  exact hnames s.platforms.toList t.extendedSchemas

/-! ## What a list of declarations stands for -/

/-- The text of the last declaration of a form. -/
def lastText (form : Form) (ds : List Declaration) : Option String :=
  (calls form ds).getLast?.bind Call.text?

/-- The schemas that the extended schemas declare, in order. -/
def extensions (ds : List Declaration) : List Schema := (calls .extendedSchema ds).filterMap Call.schema?

/-- One more declaration replaces the last text of its own form, and of no others. -/
@[simp] theorem lastText_concat_known (form form' : Form) (call : Call) (ds : List Declaration) :
    lastText form (ds ++ [.known form' call]) = if form' = form then call.text? else lastText form ds := by
  unfold lastText
  rw [calls_concat_known]
  by_cases h : form' = form
  · rw [if_pos h, if_pos h, List.getLast?_concat, Option.bind_some]
  · rw [if_neg h, if_neg h]

/-- One more extended schema is the last of them. -/
@[simp] theorem extensions_concat_known (form : Form) (call : Call) (ds : List Declaration) :
    extensions (ds ++ [.known form call]) =
      if form = .extendedSchema then extensions ds ++ call.schema?.toList else extensions ds := by
  unfold extensions
  rw [calls_concat_known]
  by_cases h : form = .extendedSchema
  · rw [if_pos h, if_pos h, List.filterMap_append]
    cases hs : call.schema? <;> simp [hs]
  · rw [if_neg h, if_neg h]

/-- The table that declarations stand for, field by field. It is called `name` unless one of them says
    otherwise. -/
structure Table.Declares (name : String) (ds : List Declaration) (t : Table) : Prop where
  namespaceId_eq : t.namespaceId = ""
  name_eq : t.name = (lastText .tableName ds).getD name
  description_eq : t.description = (lastText .description ds).getD ""
  implementation_eq : t.implementation = (lastText .implementation ds).getD ""
  aliases_eq : t.aliases = (calls .tableName ds).flatMap (Call.textsUnder "aliases")
  fuzzPaths_eq : t.fuzzPaths = (calls .fuzzPaths ds).flatMap Call.texts
  examples_eq : t.examples = (calls .examples ds).flatMap Call.texts
  attributes_eq : ∀ key, t.attributes.get? key =
    ((calls .attributes ds).flatMap (Call.scalarsUnder key)).getLast?
  schema_eq : t.schema = (calls .schema ds).head?.bind Call.schema?
  extendedSchemas_eq : ∀ platform, t.extendedSchemas.get? platform =
    ((extensions ds).filter (fun s => platform ∈ s.platforms)).getLast?

/-- What a declaration needs to be applied, apart from those before it. -/
def Declaration.Accepted : Declaration → Prop
  | known form call =>
    (form.takesText = true → ∃ s, call.arg? 0 = some (.str s)) ∧
    (form.takesTexts = true → ∃ texts : List String, call.arg? 0 = some (.list (texts.map .str))) ∧
    (form = .schema ∨ form = .extendedSchema → ∃ s, Schema.ofCall call = .ok s)
  | unknown _ | unnamed => True

/-- Declarations that stand for a table: all are accepted, and at most one is a base schema. -/
def Acceptable (ds : List Declaration) : Prop :=
  (∀ d ∈ ds, d.Accepted) ∧ (calls .schema ds).length ≤ 1

/-- A declaration can be applied after others: it is accepted, and no second base schema. -/
def Fits (before : List Declaration) (d : Declaration) : Prop :=
  d.Accepted ∧ (d.callOf? .schema ≠ none → calls .schema before = [])

/-- What is wrong with a declaration after others. A second base schema is looked at no further; its error has
    the name that the table has by then. -/
inductive Fault (name : String) (before : List Declaration) : Declaration → Error → Prop where
  | notText {form : Form} {call : Call} : form.takesText = true → (∀ s, call.arg? 0 ≠ some (.str s)) →
      Fault name before (.known form call)
        (.unexpected s!"{form.word} argument 0" "string" ((call.arg? 0).map Node.describe))
  | notList {form : Form} {call : Call} : form.takesTexts = true → (∀ items, call.arg? 0 ≠ some (.list items)) →
      Fault name before (.known form call)
        (.unexpected s!"{form.word} argument 0" "list" ((call.arg? 0).map Node.describe))
  | notTexts {form : Form} {call : Call} {texts : List String} {node : Node} {rest : List Node} :
      form.takesTexts = true → call.arg? 0 = some (.list (texts.map .str ++ node :: rest)) →
      (∀ s, node ≠ .str s) →
      Fault name before (.known form call)
        (.unexpected s!"{form.word} list element {texts.length}" "string" node.describe)
  | secondSchema {call : Call} : calls .schema before ≠ [] →
      Fault name before (.known .schema call) (.duplicateSchema ((lastText .tableName before).getD name))
  | schema {call : Call} {e : Error} : calls .schema before = [] → Schema.ofCall call = .error e →
      Fault name before (.known .schema call) e
  | extendedSchema {call : Call} {e : Error} : Schema.ofCall call = .error e →
      Fault name before (.known .extendedSchema call) e

namespace Table

variable {name : String} {before ds : List Declaration} {d : Declaration} {t : Table}

/-- Without declarations a table has its name and the defaults. -/
theorem declares_nil (name : String) : Declares name [] { name := name } := by
  constructor
  case attributes_eq | extendedSchemas_eq => exact fun _ => rfl
  all_goals rfl

/-- A declaration whose calls are of no form that a table is made from adds nothing. -/
theorem Declares.concat_of_silent (ht : Declares name before t)
    (h : ∀ form, form ≠ .column → form ≠ .foreignKey → calls form (before ++ [d]) = calls form before) :
    Declares name (before ++ [d]) t := by
  have hlast : ∀ form, form.takesText = true → lastText form (before ++ [d]) = lastText form before := by
    intro form hform
    unfold lastText
    rw [h form (by rintro rfl; cases hform) (by rintro rfl; cases hform)]
  have hextensions : extensions (before ++ [d]) = extensions before := by
    unfold extensions
    rw [h .extendedSchema (by simp) (by simp)]
  constructor
  · exact ht.namespaceId_eq
  · rw [hlast _ rfl]
    exact ht.name_eq
  · rw [hlast _ rfl]
    exact ht.description_eq
  · rw [hlast _ rfl]
    exact ht.implementation_eq
  · rw [h _ (by simp) (by simp)]
    exact ht.aliases_eq
  · rw [h _ (by simp) (by simp)]
    exact ht.fuzzPaths_eq
  · rw [h _ (by simp) (by simp)]
    exact ht.examples_eq
  · rw [h _ (by simp) (by simp)]
    exact ht.attributes_eq
  · rw [h _ (by simp) (by simp)]
    exact ht.schema_eq
  · rw [hextensions]
    exact ht.extendedSchemas_eq

/-! What each form adds to the meaning. The other fields stay as the declarations before it have made them. -/

section Forms

variable {call : Call}

theorem Declares.tableName {s : String} (ht : Declares name before t) (hs : call.text? = some s) :
    Declares name (before ++ [.known .tableName call])
      { t with name := s, aliases := t.aliases ++ aliasKeywords call } := by
  obtain ⟨hns, hname, hdesc, himpl, haliases, hfuzz, hexamples, hattr, hschema, hext⟩ := ht
  constructor <;> simp [*, aliasKeywords_eq]

theorem Declares.description {s : String} (ht : Declares name before t) (hs : call.text? = some s) :
    Declares name (before ++ [.known .description call]) { t with description := s } := by
  obtain ⟨hns, hname, hdesc, himpl, haliases, hfuzz, hexamples, hattr, hschema, hext⟩ := ht
  constructor <;> simp [*]

theorem Declares.implementation {s : String} (ht : Declares name before t) (hs : call.text? = some s) :
    Declares name (before ++ [.known .implementation call]) { t with implementation := s } := by
  obtain ⟨hns, hname, hdesc, himpl, haliases, hfuzz, hexamples, hattr, hschema, hext⟩ := ht
  constructor <;> simp [*]

theorem Declares.fuzzPaths (ht : Declares name before t) :
    Declares name (before ++ [.known .fuzzPaths call]) { t with fuzzPaths := t.fuzzPaths ++ call.texts } := by
  obtain ⟨hns, hname, hdesc, himpl, haliases, hfuzz, hexamples, hattr, hschema, hext⟩ := ht
  constructor <;> simp [*]

theorem Declares.examples (ht : Declares name before t) :
    Declares name (before ++ [.known .examples call]) { t with examples := t.examples ++ call.texts } := by
  obtain ⟨hns, hname, hdesc, himpl, haliases, hfuzz, hexamples, hattr, hschema, hext⟩ := ht
  constructor <;> simp [*]

/-- Attributes are added to those that there are, key by key. -/
theorem Declares.attributes (ht : Declares name before t) :
    Declares name (before ++ [.known .attributes call]) (t.addAttributes call) := by
  obtain ⟨hns, hname, hdesc, himpl, haliases, hfuzz, hexamples, hattr, hschema, hext⟩ := ht
  constructor
  case attributes_eq =>
    intro key
    rw [get?_addAttributes, hattr key]
    simp [List.getLast?_append]
  all_goals simp [*, addAttributes]

/-- The base schema is the first one, and the only one. -/
theorem Declares.schema {s : Schema} (ht : Declares name before t) (hfirst : calls .schema before = [])
    (hs : call.schema? = some s) :
    Declares name (before ++ [.known .schema call]) { t with schema := some s } := by
  obtain ⟨hns, hname, hdesc, himpl, haliases, hfuzz, hexamples, hattr, hschema, hext⟩ := ht
  constructor <;> simp [*]

/-- An extended schema takes the place of earlier ones of its platforms, and of these only. -/
theorem Declares.extendedSchema {s : Schema} (ht : Declares name before t) (hs : call.schema? = some s) :
    Declares name (before ++ [.known .extendedSchema call]) (t.addExtendedSchema s) := by
  obtain ⟨hns, hname, hdesc, himpl, haliases, hfuzz, hexamples, hattr, hschema, hext⟩ := ht
  constructor
  case extendedSchemas_eq =>
    intro platform
    rw [get?_addExtendedSchema, hext platform]
    by_cases hp : platform ∈ s.platforms <;> simp [hs, hp]
  all_goals simp [*, addExtendedSchema]

end Forms

/-- The base schema is there when a declaration of one has been applied. -/
theorem Declares.schema_eq_none (ht : Declares name before t) (hfirst : calls .schema before = []) :
    t.schema = none := by
  rw [ht.schema_eq, hfirst]
  rfl

/-- **A declaration that fits adds to the table what it says.** -/
theorem apply_of_fits (ht : Declares name before t) (hd : Fits before d) :
    ∃ t', t.apply d = .ok t' ∧ Declares name (before ++ [d]) t' := by
  cases d with
  | unknown callee => exact ⟨t, rfl, ht.concat_of_silent fun form _ _ => calls_concat_unknown form callee before⟩
  | unnamed => exact ⟨t, rfl, ht.concat_of_silent fun form _ _ => calls_concat_unnamed form before⟩
  | known form call =>
    obtain ⟨⟨htext, htexts, hschema⟩, hfirst⟩ := hd
    cases form with
    | tableName =>
      obtain ⟨s, hs⟩ := htext rfl
      refine ⟨_, ?_, ht.tableName (text?_of_text hs)⟩
      exact bind_eq_ok.mpr ⟨s, textArgument_of_text hs, rfl⟩
    | description =>
      obtain ⟨s, hs⟩ := htext rfl
      refine ⟨_, ?_, ht.description (text?_of_text hs)⟩
      exact bind_eq_ok.mpr ⟨s, textArgument_of_text hs, rfl⟩
    | implementation =>
      obtain ⟨s, hs⟩ := htext rfl
      refine ⟨_, ?_, ht.implementation (text?_of_text hs)⟩
      exact bind_eq_ok.mpr ⟨s, textArgument_of_text hs, rfl⟩
    | fuzzPaths =>
      obtain ⟨texts, htexts⟩ := htexts rfl
      refine ⟨_, ?_, ht.fuzzPaths⟩
      exact bind_eq_ok.mpr ⟨call.texts, textListArgument_of_texts htexts, rfl⟩
    | examples =>
      obtain ⟨texts, htexts⟩ := htexts rfl
      refine ⟨_, ?_, ht.examples⟩
      exact bind_eq_ok.mpr ⟨call.texts, textListArgument_of_texts htexts, rfl⟩
    | attributes => exact ⟨_, rfl, ht.attributes⟩
    | schema =>
      obtain ⟨s, hs⟩ := hschema (Or.inl rfl)
      have hnone : calls .schema before = [] := hfirst (by simp [Declaration.callOf?])
      refine ⟨_, ?_, ht.schema hnone (schema?_eq_some.mpr hs)⟩
      show (if t.schema.isSome = true then _ else _) = _
      rw [ht.schema_eq_none hnone, if_neg (by simp)]
      exact bind_eq_ok.mpr ⟨s, hs, rfl⟩
    | extendedSchema =>
      obtain ⟨s, hs⟩ := hschema (Or.inr rfl)
      refine ⟨_, ?_, ht.extendedSchema (schema?_eq_some.mpr hs)⟩
      exact bind_eq_ok.mpr ⟨s, hs, rfl⟩
    | column =>
      refine ⟨t, rfl, ht.concat_of_silent fun form hform _ => ?_⟩
      rw [calls_concat_known, if_neg hform.symm]
    | foreignKey =>
      refine ⟨t, rfl, ht.concat_of_silent fun form _ hform => ?_⟩
      rw [calls_concat_known, if_neg hform.symm]

/-- A base schema is there when there has been a declaration of one that is accepted. -/
theorem Declares.isSome_schema (ht : Declares name before t) (haccepted : ∀ d ∈ before, d.Accepted)
    (hsecond : calls .schema before ≠ []) : t.schema.isSome = true := by
  rw [ht.schema_eq]
  cases hcalls : calls .schema before with
  | nil => exact absurd hcalls hsecond
  | cons call rest =>
    -- the call is that of an accepted declaration
    have hmem : call ∈ calls .schema before := by simp [hcalls]
    obtain ⟨s, hs⟩ := (haccepted _ (mem_calls.mp hmem)).2.2 (Or.inl rfl)
    simp [schema?_eq_some.mpr hs]

/-- A form with a text fails in the way in which its argument fails, whatever the table is. -/
theorem apply_of_text_error {form : Form} {call : Call} {e : Error} (hform : form.takesText = true)
    (h : textArgument form call = .error e) (t : Table) : t.apply (.known form call) = .error e := by
  cases form with
  | tableName | description | implementation => exact bind_eq_error.mpr (Or.inl h)
  | _ => cases hform

/-- So does a form with a list of texts. -/
theorem apply_of_texts_error {form : Form} {call : Call} {e : Error} (hform : form.takesTexts = true)
    (h : textListArgument form call = .error e) (t : Table) : t.apply (.known form call) = .error e := by
  cases form with
  | fuzzPaths | examples => exact bind_eq_error.mpr (Or.inl h)
  | _ => cases hform

/-- **A declaration at fault is an error.** -/
theorem apply_of_fault {e : Error} (ht : Declares name before t) (haccepted : ∀ d ∈ before, d.Accepted)
    (hd : Fault name before d e) : t.apply d = .error e := by
  cases hd with
  | notText hform hnot => exact apply_of_text_error hform (textArgument_of_not_text hnot) t
  | notList hform hnot => exact apply_of_texts_error hform (textListArgument_of_not_list hnot) t
  | notTexts hform harg hnot => exact apply_of_texts_error hform (textListArgument_of_not_texts harg hnot) t
  | secondSchema hsecond =>
    show (if t.schema.isSome = true then _ else _) = _
    rw [if_pos (ht.isSome_schema haccepted hsecond), ht.name_eq]
  | schema hfirst herror =>
    show (if t.schema.isSome = true then _ else _) = _
    rw [ht.schema_eq_none hfirst, if_neg (by simp)]
    exact bind_eq_error.mpr (Or.inl herror)
  | extendedSchema herror => exact bind_eq_error.mpr (Or.inl herror)

/-- A declaration whose first argument has to be a text fits when it is one. -/
theorem fits_or_fault_of_takesText (name : String) (before : List Declaration) {form : Form} (call : Call)
    (hform : form.takesText = true) :
    Fits before (.known form call) ∨ ∃ e, Fault name before (.known form call) e := by
  by_cases h : ∃ s, call.arg? 0 = some (.str s)
  · refine Or.inl ⟨⟨fun _ => h, ?_, ?_⟩, ?_⟩
    all_goals cases form <;> simp_all [Form.takesText, Form.takesTexts, Declaration.callOf?]
  · exact Or.inr ⟨_, .notText hform fun s hs => h ⟨s, hs⟩⟩

/-- A declaration whose first argument has to be a list of texts fits when it is one. -/
theorem fits_or_fault_of_takesTexts (name : String) (before : List Declaration) {form : Form} (call : Call)
    (hform : form.takesTexts = true) :
    Fits before (.known form call) ∨ ∃ e, Fault name before (.known form call) e := by
  by_cases h : ∃ items, call.arg? 0 = some (.list items)
  · obtain ⟨items, hitems⟩ := h
    rcases texts_or_not items with ⟨texts, rfl⟩ | ⟨texts, node, rest, rfl, hnode⟩
    · refine Or.inl ⟨⟨?_, fun _ => ⟨texts, hitems⟩, ?_⟩, ?_⟩
      all_goals cases form <;> simp_all [Form.takesText, Form.takesTexts, Declaration.callOf?]
    · exact Or.inr ⟨_, .notTexts hform hitems hnode⟩
  · exact Or.inr ⟨_, .notList hform fun items hitems => h ⟨items, hitems⟩⟩

/-- **A declaration fits or is at fault.** -/
theorem fits_or_fault (name : String) (before : List Declaration) (d : Declaration) :
    Fits before d ∨ ∃ e, Fault name before d e := by
  cases d with
  | unknown callee => exact Or.inl ⟨trivial, fun h => absurd rfl h⟩
  | unnamed => exact Or.inl ⟨trivial, fun h => absurd rfl h⟩
  | known form call =>
    cases form with
    | tableName | description | implementation => exact fits_or_fault_of_takesText name before call rfl
    | fuzzPaths | examples => exact fits_or_fault_of_takesTexts name before call rfl
    | schema =>
      by_cases hfirst : calls .schema before = []
      · cases hs : Schema.ofCall call with
        | ok s =>
          exact Or.inl ⟨⟨by simp [Form.takesText], by simp [Form.takesTexts], fun _ => ⟨s, hs⟩⟩, fun _ => hfirst⟩
        | error e => exact Or.inr ⟨e, .schema hfirst hs⟩
      · exact Or.inr ⟨_, .secondSchema hfirst⟩
    | extendedSchema =>
      cases hs : Schema.ofCall call with
      | ok s =>
        exact Or.inl ⟨⟨by simp [Form.takesText], by simp [Form.takesTexts], fun _ => ⟨s, hs⟩⟩,
          by simp [Declaration.callOf?]⟩
      | error e => exact Or.inr ⟨e, .extendedSchema hs⟩
    | attributes | column | foreignKey =>
      exact Or.inl ⟨⟨by simp [Form.takesText], by simp [Form.takesTexts], by simp⟩, by simp [Declaration.callOf?]⟩

/-! ## Whole lists -/

theorem acceptable_nil : Acceptable [] := ⟨by simp, by simp⟩

/-- A list is acceptable as long as every declaration in it fits those before it. -/
theorem acceptable_concat (before : List Declaration) (d : Declaration) :
    Acceptable (before ++ [d]) ↔ Acceptable before ∧ Fits before d := by
  unfold Acceptable Fits
  have hlength : (calls .schema (before ++ [d])).length =
      (calls .schema before).length + (if d.callOf? .schema = none then 0 else 1) := by
    unfold calls
    rw [List.filterMap_append]
    cases h : d.callOf? .schema <;> simp [h]
  rw [hlength]
  constructor
  · rintro ⟨haccepted, hschemas⟩
    refine ⟨⟨fun d' hd' => haccepted d' (List.mem_append_left _ hd'), by omega⟩,
      haccepted d (by simp), fun hne => ?_⟩
    rw [if_neg hne] at hschemas
    exact List.length_eq_zero_iff.mp (by omega)
  · rintro ⟨⟨haccepted, hschemas⟩, hd, hfirst⟩
    constructor
    · intro d' hd'
      rcases List.mem_append.mp hd' with hd' | hd'
      · exact haccepted d' hd'
      · rw [List.mem_singleton.mp hd']
        exact hd
    · by_cases hne : d.callOf? .schema = none
      · rw [if_pos hne]
        exact hschemas
      · rw [if_neg hne, hfirst hne]
        simp

/-- The last declaration is applied to what those before it make. -/
theorem foldlM_apply_concat (before : List Declaration) (d : Declaration) (t₀ : Table) :
    (before ++ [d]).foldlM apply t₀ = (before.foldlM apply t₀).bind (fun t => t.apply d) := by
  rw [List.foldlM_append]
  congr 1
  funext t
  show (t.apply d).bind Except.ok = t.apply d
  cases t.apply d <;> rfl

/-- **Acceptable declarations make the table that they stand for.** The induction takes the declarations from
    the end, so that what is known of those before is the meaning of all of them. -/
theorem declares_of_acceptable (name : String) (h : Acceptable ds) :
    ∃ t, ds.foldlM apply { name := name } = .ok t ∧ Declares name ds t := by
  induction ds using List.reverseRecOn with
  | nil => exact ⟨_, rfl, declares_nil name⟩
  | append_singleton before d ih =>
    obtain ⟨hbefore, hd⟩ := (acceptable_concat before d).mp h
    obtain ⟨t, hfold, ht⟩ := ih hbefore
    obtain ⟨t', happly, ht'⟩ := apply_of_fits ht hd
    refine ⟨t', ?_, ht'⟩
    rw [foldlM_apply_concat, hfold]
    exact happly

/-- The first declaration at fault is the error of the whole list. -/
theorem error_of_fault {rest : List Declaration} {e : Error} (h : Acceptable before)
    (hd : Fault name before d e) : (before ++ d :: rest).foldlM apply { name := name } = .error e := by
  obtain ⟨t, hfold, ht⟩ := declares_of_acceptable name h
  rw [List.foldlM_append, hfold]
  show (d :: rest).foldlM apply t = .error e
  rw [List.foldlM_cons, apply_of_fault ht h.1 hd]
  rfl

/-- Declarations are acceptable, or there is a first one among them that is at fault. -/
theorem acceptable_or_fault (name : String) (ds : List Declaration) : Acceptable ds ∨
    ∃ before d rest e, ds = before ++ d :: rest ∧ Acceptable before ∧ Fault name before d e := by
  induction ds using List.reverseRecOn with
  | nil => exact Or.inl acceptable_nil
  | append_singleton before d ih =>
    rcases ih with h | ⟨before', d', rest, e, rfl, h, hd'⟩
    · rcases fits_or_fault name before d with hd | ⟨e, hd⟩
      · exact Or.inl ((acceptable_concat before d).mpr ⟨h, hd⟩)
      · exact Or.inr ⟨before, d, [], e, rfl, h, hd⟩
    · exact Or.inr ⟨before', d', rest ++ [d], e, by simp, h, hd'⟩

/-! ## Syntax trees -/

/-- **What a file means.** Let `ds` be the declarations in its syntax tree. It declares a table just when `ds`
    is acceptable; the table is then the one that `ds` stands for, field by field. Otherwise the error is that
    of the first declaration that is at fault after those before it, whatever follows. -/
theorem ofNode_meaning (name : String) (node : Node) :
    let ds := declarations node
    ((∃ t, ofNode name node = .ok t) ↔ Acceptable ds) ∧
    (∀ t, ofNode name node = .ok t → Declares name ds t) ∧
    (∀ e, ofNode name node = .error e ↔
      ∃ before d rest, ds = before ++ d :: rest ∧ Acceptable before ∧ Fault name before d e) := by
  intro ds
  have hok : Acceptable ds → ∃ t, ofNode name node = .ok t ∧ Declares name ds t := declares_of_acceptable name
  have herror : ∀ before d rest e, ds = before ++ d :: rest → Acceptable before → Fault name before d e →
      ofNode name node = .error e := by
    intro before d rest e hds hbefore hd
    show ds.foldlM apply { name := name } = .error e
    rw [hds]
    exact error_of_fault hbefore hd
  rcases acceptable_or_fault name ds with h | ⟨before, d, rest, e, hds, hbefore, hd⟩
  · obtain ⟨t, ht, hdeclares⟩ := hok h
    refine ⟨⟨fun _ => h, fun _ => ⟨t, ht⟩⟩, ?_, ?_⟩
    · intro t' ht'
      rw [ht] at ht'
      cases ht'
      exact hdeclares
    · intro e
      constructor
      · intro he
        rw [ht] at he
        cases he
      · rintro ⟨before, d, rest, hds, hbefore, hd⟩
        exact herror before d rest e hds hbefore hd
  · have he := herror before d rest e hds hbefore hd
    refine ⟨⟨?_, ?_⟩, ?_, ?_⟩
    · rintro ⟨t, ht⟩
      rw [he] at ht
      cases ht
    · intro h
      obtain ⟨t, ht, -⟩ := hok h
      exact ⟨t, ht⟩
    · intro t ht
      rw [he] at ht
      cases ht
    · intro e'
      constructor
      · intro he'
        rw [he] at he'
        cases he'
        exact ⟨before, d, rest, hds, hbefore, hd⟩
      · rintro ⟨before', d', rest', hds', hbefore', hd'⟩
        exact herror before' d' rest' e' hds' hbefore' hd'

end Table
end TableSpec
