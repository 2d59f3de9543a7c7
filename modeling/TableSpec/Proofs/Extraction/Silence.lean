import TableSpec.Extraction
import TableSpec.Proofs.Source.Walk

/-!
# `Proofs.Extraction.Silence` — statements that say nothing about a table

A file may hold statements outside the vocabulary. Such a statement is not searched, so whatever is written inside
it is no declaration either, and all it may come to is one declaration that changes no table. So a file means the
same with the statement and without it.

In the vocabulary there are calls that are not searched either: their arguments are data, and a call that stands
among them is no declaration.

## Contents
- `Declaration.IsIdle`, `foldlM_apply_insert`: declarations that change no table.
- `Node.Silent`: the statements. `isIdle_of_silent`: they come to idle declarations only.
- `Form.holdsData`: the forms whose arguments are data. `declarations_of_holdsData`.
- `Table.ofNode_silent`.
-/

namespace TableSpec

/-! ## Declarations without effect -/

/-- A declaration changes no table. -/
def Declaration.IsIdle (d : Declaration) : Prop := ∀ t : Table, t.apply d = .ok t

/-- A call outside the vocabulary, and a column or a foreign key, changes nothing and is not searched. -/
theorem isIdle_ofCall {call : Call}
    (h : ∀ form : Form, call.calleeName? = some form.word → form = .column ∨ form = .foreignKey) :
    (Declaration.ofCall call).IsIdle ∧ (Declaration.ofCall call).descends = false := by
  unfold Declaration.ofCall
  split
  · exact ⟨fun t => rfl, rfl⟩
  · rename_i callee hname
    split
    · rename_i form hform
      have hword : call.calleeName? = some form.word := by
        rw [hname, Form.ofWord?_eq_some.mp hform]
      rcases h form hword with rfl | rfl
      · exact ⟨fun t => rfl, rfl⟩
      · exact ⟨fun t => rfl, rfl⟩
    · exact ⟨fun t => rfl, rfl⟩

theorem foldlM_apply_idle {ds : List Declaration} (h : ∀ d ∈ ds, d.IsIdle) (t : Table) :
    ds.foldlM Table.apply t = .ok t := by
  induction ds with
  | nil => rfl
  | cons d rest ih =>
    rw [List.foldlM_cons, h d List.mem_cons_self t]
    exact ih fun d' hd' => h d' (List.mem_cons_of_mem d hd')

/-- Idle declarations may stand anywhere among others. -/
theorem foldlM_apply_insert {idle : List Declaration} (h : ∀ d ∈ idle, d.IsIdle) (before after : List Declaration)
    (t : Table) : (before ++ (idle ++ after)).foldlM Table.apply t = (before ++ after).foldlM Table.apply t := by
  rw [List.foldlM_append, List.foldlM_append]
  congr 1
  funext t'
  rw [List.foldlM_append, foldlM_apply_idle h]
  rfl

/-! ## Statements -/

/-- The statements outside the vocabulary, and those inside it that only mean something in a schema. A call may
    have any arguments. -/
inductive Node.Silent : Node → Prop where
  | other (kind : String) : Silent (.other kind)
  | str (value : String) : Silent (.str value)
  | name (id : String) : Silent (.name id)
  | constant (value : Constant) : Silent (.constant value)
  | call {call : Call} : (∀ form : Form, call.calleeName? = some form.word → form = .column ∨ form = .foreignKey) →
      Silent call.node

theorem isIdle_of_silent {stmt : Node} (h : stmt.Silent) : ∀ d ∈ declarations stmt, d.IsIdle := by
  intro d hd
  rw [declarations_eq] at hd
  cases h with
  | other | str | name | constant => cases hd
  | @call call hform =>
    obtain ⟨hidle, hdescends⟩ := isIdle_ofCall hform
    have hsearched : call.node.isSearched = false := hdescends
    rw [hsearched, if_neg (by simp), List.append_nil] at hd
    rwa [List.mem_singleton.mp hd]

/-! ## Calls that hold data -/

/-- Whether the arguments of a form are data. -/
def Form.holdsData : Form → Bool
  | attributes | fuzzPaths | examples | extendedSchema => true
  | tableName | description | schema | column | implementation | foreignKey => false

/-- A call that holds data is one declaration, whatever calls are among its arguments. -/
theorem declarations_of_holdsData {form : Form} (hform : form.holdsData = true) {call : Call}
    (hname : call.calleeName? = some form.word) : declarations call.node = [.known form call] := by
  have hknown : Declaration.ofCall call = .known form call := Declaration.ofCall_eq_known.mpr ⟨rfl, hname⟩
  have hdeclaration : Declaration.ofNode? call.node = some (.known form call) := congrArg some hknown
  have hsearched : call.node.isSearched = false := by
    unfold Node.isSearched
    rw [hdeclaration]
    cases form with
    | attributes | fuzzPaths | examples | extendedSchema => rfl
    | tableName | description | schema | column | implementation | foreignKey => cases hform
  rw [declarations_eq, hdeclaration, hsearched]
  rfl

/-- **What does not influence a table.** A statement outside the vocabulary can be put anywhere among the statements
    of a file, and the outcome is the same, be it a table or an error. And wherever a call stands whose arguments
    are data, all that it adds to the declarations around it is itself. -/
theorem Table.ofNode_silent :
    (∀ (name : String) (before : List Node) (stmt : Node) (after : List Node), stmt.Silent →
      ofNode name (.file (before ++ stmt :: after)) = ofNode name (.file (before ++ after))) ∧
    (∀ (form : Form) (call : Call), form.holdsData = true → call.calleeName? = some form.word →
      declarations call.node = [.known form call] ∧
      ∀ (parent : Node) (before after : List Node), parent.isSearched = true →
        parent.children = before ++ call.node :: after →
        declarations parent = (Declaration.ofNode? parent).toList ++
          (before.flatMap declarations ++ .known form call :: after.flatMap declarations)) := by
  constructor
  · intro name before stmt after hstmt
    unfold ofNode
    rw [declarations_file, declarations_file, List.flatMap_append, List.flatMap_append, List.flatMap_cons]
    exact foldlM_apply_insert (isIdle_of_silent hstmt) _ _ _
  · intro form call hform hname
    have hcall := declarations_of_holdsData hform hname
    refine ⟨hcall, ?_⟩
    intro parent before after hsearched hchildren
    rw [declarations_eq, if_pos hsearched, hchildren, List.flatMap_append, List.flatMap_cons, hcall]
    rfl

/-- The declaration of a name. -/
def nameCall (value : String) : Node := .call (.name "table_name") [.str value] []

/-- A call with calls for names among its arguments, one of them inside a list under a keyword. -/
def callAround (callee : String) : Call := ⟨.name callee, [nameCall "inner"], [("more", .list [nameCall "inner"])]⟩

theorem Table.ofNode_silent_around :
    (callAround "notes").node.Silent ∧
    ofNode "file" (.file ([nameCall "outer"] ++ (callAround "notes").node :: [.name "end"])) =
      ofNode "file" (.file ([nameCall "outer"] ++ [.name "end"])) ∧
    ofNode "file" (.file ([nameCall "outer"] ++ [.name "end"])) = .ok { name := "outer" } ∧
    declarations (callAround "attributes").node = [.known .attributes (callAround "attributes")] ∧
    ofNode "file" (.file [nameCall "outer", (callAround "attributes").node]) = .ok { name := "outer" } := by
  have hsilent : (callAround "notes").node.Silent := by
    refine .call fun form hname => ?_
    have hword : "notes" = form.word := Option.some.inj hname
    cases form <;> exact absurd hword (by decide)
  have hdata := (ofNode_silent.2 .attributes (callAround "attributes") rfl rfl).1
  refine ⟨hsilent, ?_, ?_, hdata, ?_⟩
  · exact ofNode_silent.1 "file" [nameCall "outer"] _ [.name "end"] hsilent
  · rfl
  · rfl

end TableSpec
