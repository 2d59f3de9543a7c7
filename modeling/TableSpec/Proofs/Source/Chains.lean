import TableSpec.Source.Statement

/-!
# `Proofs.Source.Chains` — the chains in a syntax tree

A chain is only ever made of an operand and at least one more, so in a tree that has been read every chain has two
operands or more (`Node.WellChained`, `wellChained_of_parse`).

The lemmas go through the grammar level by level, as the readers do: if what is read inside brackets is well
chained, then so is what this level reads. The only level that has something to say is `chained`; the others pass
on what they were given or keep nothing of it.

## Contents
- `Node.WellChained`, and what is made of well chained nodes.
- `Source.Yields`, `Gives`: what is read has a property, if something is read; one lemma for each way in which
  readers are put together.
- One lemma for each reader of expressions up to `expression_yields`, and of statements up to `lines_yields`.
- `wellChained_of_parse`.
-/

namespace TableSpec

/-- Every chain in a tree has at least two operands. -/
inductive Node.WellChained : Node → Prop where
  | intro {node : Node} : (∀ op operands, node = .chain op operands → 2 ≤ operands.length) →
      (∀ child ∈ node.children, child.WellChained) → node.WellChained

namespace Node.WellChained

/-- A chain joins at least two operands. -/
theorem two_le {op : Connective} {operands : List Node} (h : (chain op operands).WellChained) :
    2 ≤ operands.length := by
  cases h with
  | intro hlength _ => exact hlength op operands rfl

/-- What holds all the way down holds from each child on. -/
theorem of_mem_children {node : Node} (h : node.WellChained) : ∀ child ∈ node.children, child.WellChained := by
  cases h with
  | intro _ hchildren => exact hchildren

theorem other (kind : String) : (Node.other kind).WellChained := .intro nofun nofun

theorem name (id : String) : (Node.name id).WellChained := .intro nofun nofun

theorem str (value : String) : (Node.str value).WellChained := .intro nofun nofun

theorem constant (value : Constant) : (Node.constant value).WellChained := .intro nofun nofun

theorem list {items : List Node} (h : ∀ item ∈ items, item.WellChained) : (Node.list items).WellChained :=
  .intro nofun h

theorem file {stmts : List Node} (h : ∀ stmt ∈ stmts, stmt.WellChained) : (Node.file stmts).WellChained :=
  .intro nofun h

theorem lambda {body : Node} (h : body.WellChained) : (Node.lambda body).WellChained :=
  .intro nofun fun _ hchild => List.mem_singleton.mp hchild ▸ h

/-- A chain takes at least two operands; this is the one case that asks for more than its parts. -/
theorem chain {op : Connective} {operands : List Node} (hlength : 2 ≤ operands.length)
    (h : ∀ operand ∈ operands, operand.WellChained) : (Node.chain op operands).WellChained := by
  refine .intro ?_ h
  rintro op' operands' ⟨⟩
  exact hlength

/-- The parts of a call are its callee, its arguments and the values of its keywords. -/
theorem call {callee : Node} {args : List Node} {keywords : List (String × Node)} (hcallee : callee.WellChained)
    (hargs : ∀ arg ∈ args, arg.WellChained) (hkeywords : ∀ kw ∈ keywords, kw.2.WellChained) :
    (Node.call callee args keywords).WellChained := by
  refine .intro nofun fun child hchild => ?_
  rcases List.mem_cons.mp hchild with rfl | hchild
  · exact hcallee
  rcases List.mem_append.mp hchild with hchild | hchild
  · exact hargs child hchild
  · obtain ⟨kw, hkw, rfl⟩ := List.mem_map.mp hchild
    exact hkeywords kw hkw

end Node.WellChained

namespace Source

/-! ## What readers give -/

section Yields

variable {α β γ : Type} {p : α → Prop} {q : β → Prop}

/-- What is read, if something is read, has a property. -/
def Yields (p : α → Prop) (x : Option (α × List Lexeme)) : Prop := ∀ a rest, x = some (a, rest) → p a

/-- Whatever a reader reads has a property. -/
def Gives (r : Reader α) (p : α → Prop) : Prop := ∀ ts, Yields p (r ts)

namespace Yields

/-- A reader that fails yields nothing, so nothing can be wrong with it. -/
theorem none : Yields p none := nofun

theorem some {a : α} {rest : List Lexeme} (h : p a) : Yields p (some (a, rest)) := by
  rintro a' rest' ⟨⟩
  exact h

/-- What is read last has the property, when what was read before has one that helps. -/
theorem bind {x : Option (α × List Lexeme)} {f : α × List Lexeme → Option (β × List Lexeme)} (hx : Yields p x)
    (hf : ∀ a rest, p a → Yields q (f (a, rest))) : Yields q (x >>= f) := by
  intro b rest h
  obtain ⟨⟨a, rest'⟩, ha, hb⟩ := Option.bind_eq_some_iff.mp h
  exact hf a rest' (hx a rest' ha) b rest hb

/-- What is read last has the property, whatever was read before. -/
theorem after {x : Option γ} {f : γ → Option (β × List Lexeme)} (hf : ∀ c, Yields q (f c)) :
    Yields q (x >>= f) := by
  intro b rest h
  obtain ⟨c, -, hb⟩ := Option.bind_eq_some_iff.mp h
  exact hf c b rest hb

/-- What is read may be turned into something else, as long as that keeps what is to be shown. -/
theorem map {x : Option (α × List Lexeme)} {f : α × List Lexeme → β × List Lexeme} (hx : Yields p x)
    (hf : ∀ a rest, p a → q (f (a, rest)).1) : Yields q (x.map f) := by
  intro b rest h
  obtain ⟨⟨a, rest'⟩, ha, hb⟩ := Option.map_eq_some_iff.mp h
  have hfa : q (f (a, rest')).1 := hf a rest' (hx a rest' ha)
  rwa [hb] at hfa

/-- What is read does not matter when whatever is made of it has the property. -/
theorem mapped {x : Option γ} {f : γ → β × List Lexeme} (hf : ∀ c, q (f c).1) : Yields q (x.map f) := by
  intro b rest h
  obtain ⟨c, -, hb⟩ := Option.map_eq_some_iff.mp h
  have hfc : q (f c).1 := hf c
  rwa [hb] at hfc

/-- A reader that looks ahead yields what the branch that it takes yields. -/
theorem ite {c : Prop} [Decidable c] {x y : Option (α × List Lexeme)} (hx : Yields p x) (hy : Yields p y) :
    Yields p (if c then x else y) := by
  by_cases h : c
  · rwa [if_pos h]
  · rwa [if_neg h]

end Yields

/-- Each item of a separated repetition has the property when the reader of items gives it. -/
theorem tail_yields {separator : List Lexeme → Option (List Lexeme)} {item : Reader α}
    (hitem : Gives item p) (n : Nat) (ts : List Lexeme) :
    Yields (fun as => ∀ a ∈ as, p a) (tail separator item n ts) := by
  induction n generalizing ts with
  | zero => exact .none
  | succ n ih =>
    unfold tail
    split
    · exact .some (by simp)
    · refine (hitem _).bind fun a rest ha => ?_
      refine (ih rest).bind fun as rest has => ?_
      exact .some (by simpa using ⟨ha, has⟩)

theorem repeated_yields {separator : List Lexeme → Option (List Lexeme)} {item : Reader α}
    (hitem : Gives item p) (ts : List Lexeme) :
    Yields (fun as => ∀ a ∈ as, p a) (repeated separator item ts) :=
  tail_yields hitem _ ts

end Yields

/-! ## Expressions -/

/-- An expression is well chained. -/
def WellChained (a : Operand) : Prop := a.node.WellChained

/-- Whatever the grammar does not use is kept without children. -/
theorem wellChained_kept (kind : String) (target : Bool) : WellChained ⟨.other kind, target⟩ := .other kind

/-- All nodes of a list are well chained. -/
def AllWellChained (nodes : List Node) : Prop := ∀ node ∈ nodes, node.WellChained

theorem AllWellChained.nil : AllWellChained [] := List.forall_mem_nil _

theorem AllWellChained.cons {node : Node} {nodes : List Node} (hnode : node.WellChained)
    (hnodes : AllWellChained nodes) : AllWellChained (node :: nodes) :=
  List.forall_mem_cons.mpr ⟨hnode, hnodes⟩

theorem AllWellChained.append {front back : List Node} (hfront : AllWellChained front)
    (hback : AllWellChained back) : AllWellChained (front ++ back) :=
  List.forall_mem_append.mpr ⟨hfront, hback⟩

/-- Line continuations are kept as nodes without children. -/
theorem wellChained_joints (ts : List Lexeme) : AllWellChained (joints ts) := by
  intro node hnode
  unfold joints at hnode
  split at hnode
  · rw [List.eq_of_mem_replicate hnode]
    exact .other _
  · cases hnode

/-- The only place where chains are made. A single operand is left as it is, so that a chain has two or more. -/
theorem wellChained_chained {op : Connective} {first : Operand} {more : List Operand} (hfirst : WellChained first)
    (hmore : ∀ a ∈ more, WellChained a) : WellChained (chained op first more) := by
  unfold chained
  by_cases hempty : more.isEmpty = true
  · rwa [if_pos hempty]
  · rw [if_neg hempty]
    have hlength : 0 < more.length := List.length_pos_iff.mpr fun hnil => hempty (List.isEmpty_iff.mpr hnil)
    refine Node.WellChained.chain ?_ ?_
    · rw [List.length_cons, List.length_map]
      omega
    · intro operand hoperand
      rcases List.mem_cons.mp hoperand with rfl | hoperand
      · exact hfirst
      · obtain ⟨a, ha, rfl⟩ := List.mem_map.mp hoperand
        exact hmore a ha

section Levels

variable {nested primary : Reader Operand}

/-! ### Elements of brackets -/

/-- A lambda keeps its body only; parameters and their defaults are dropped. -/
theorem lambda_yields (hnested : Gives nested WellChained) (ts : List Lexeme) :
    Yields WellChained (lambda nested ts) := by
  refine .after fun ts => .after fun ts => ?_
  refine (hnested ts).bind fun body rest hbody => ?_
  exact .some (Node.WellChained.lambda hbody)

theorem yielded_yields (nested : Reader Operand) (ts : List Lexeme) :
    Yields WellChained (yielded nested ts) := by
  refine .after fun ts => ?_
  split
  · exact .mapped fun _ => wellChained_kept _ _
  · split
    · exact .some (wellChained_kept _ _)
    · exact .after fun _ => .some (wellChained_kept _ _)

theorem starred_yields (nested : Reader Operand) (ts : List Lexeme) :
    Yields WellChained (starred nested ts) :=
  .after fun _ => .after fun _ => .some (wellChained_kept _ _)

theorem element_yields (hnested : Gives nested WellChained) (ts : List Lexeme) :
    Yields WellChained (element nested ts) :=
  .ite (yielded_yields nested ts) (.ite (starred_yields nested ts) (hnested ts))

/-- The elements between brackets are well chained. -/
def Elements.WellChained (es : Elements) : Prop := AllWellChained es.nodes

/-- Elements are taken in one after the other, behind those that were read before. -/
theorem afterElement_yields {more : Reader Elements} (hmore : Gives more Elements.WellChained)
    {before : List Node} (hbefore : AllWellChained before) {a : Operand} (ha : WellChained a)
    (close : String) (ts : List Lexeme) : Yields Elements.WellChained (afterElement close more before a ts) := by
  unfold afterElement
  split
  · exact .some (hbefore.append (.cons ha (wellChained_joints ts)))
  · refine .after fun rest => (hmore rest).bind fun es rest hes => ?_
    exact .some (hbefore.append (.cons ha ((wellChained_joints ts).append hes)))

theorem elements_yields (hnested : Gives nested WellChained) (close : String) (n : Nat)
    (ts : List Lexeme) : Yields Elements.WellChained (elements nested close n ts) := by
  induction n generalizing ts with
  | zero => exact .none
  | succ n ih =>
    unfold elements
    split
    · exact .some (wellChained_joints ts)
    · refine (element_yields hnested ts).bind fun a rest ha => ?_
      exact afterElement_yields ih (wellChained_joints ts) ha close rest

theorem elementsFrom_yields (hnested : Gives nested WellChained) {before : List Node}
    (hbefore : AllWellChained before) {a : Operand} (ha : WellChained a) (close : String)
    (ts : List Lexeme) : Yields Elements.WellChained (elementsFrom nested close before a ts) :=
  afterElement_yields (elements_yields hnested close ts.length) hbefore ha close ts

/-! ### Operators -/

/-- Whatever has an operator in front or an exponent behind it is kept without children. -/
theorem operand_yields (hprimary : Gives primary WellChained) (ts : List Lexeme) :
    Yields WellChained (operand primary ts) := by
  unfold operand
  cases signs ts with
  | mk kinds rest =>
    refine (hprimary rest).bind fun base rest hbase => .after fun powers => ?_
    cases kinds with
    | nil => exact .ite (.some hbase) (.some (wellChained_kept _ _))
    | cons kind _ => exact .some (wellChained_kept _ _)

theorem arithmetic_yields (hprimary : Gives primary WellChained) (ts : List Lexeme) :
    Yields WellChained (arithmetic primary ts) := by
  refine (operand_yields hprimary ts).bind fun a rest ha => .after fun more => ?_
  exact .ite (.some ha) (.some (wellChained_kept _ _))

theorem comparison_yields (hprimary : Gives primary WellChained) (ts : List Lexeme) :
    Yields WellChained (comparison primary ts) := by
  refine (arithmetic_yields hprimary ts).bind fun a rest ha => .after fun more => ?_
  exact .ite (.some ha) (.some (wellChained_kept _ _))

/-- Under `not` everything is kept without children; without it, it is what a comparison yields. -/
theorem inversion_yields (hnested : Gives nested WellChained)
    (hprimary : Gives primary WellChained) (ts : List Lexeme) :
    Yields WellChained (inversion nested primary ts) := by
  -- what is kept of either kind of operand
  have hkept : ∀ a rest, WellChained a →
      Yields WellChained (if atKeyword "not" ts then pure (.opaqueKind "not_operator", rest) else pure (a, rest)) :=
    fun a rest ha => .ite (.some (wellChained_kept _ _)) (.some ha)
  exact .ite ((lambda_yields hnested _).bind hkept) ((comparison_yields hprimary _).bind hkept)

/-- Operands of `and` are joined into one chain. -/
theorem conjunction_yields (hnested : Gives nested WellChained)
    (hprimary : Gives primary WellChained) (ts : List Lexeme) :
    Yields WellChained (conjunction nested primary ts) := by
  have hinversion := inversion_yields hnested hprimary
  refine (hinversion ts).bind fun a rest ha => ?_
  refine (repeated_yields hinversion rest).bind fun more rest hmore => ?_
  exact .some (wellChained_chained ha hmore)

/-- Operands of `or` are joined into one chain, each of which may be a chain of `and`. -/
theorem disjunction_yields (hnested : Gives nested WellChained)
    (hprimary : Gives primary WellChained) (ts : List Lexeme) :
    Yields WellChained (disjunction nested primary ts) := by
  have hconjunction := conjunction_yields hnested hprimary
  refine (hconjunction ts).bind fun a rest ha => ?_
  refine (repeated_yields hconjunction rest).bind fun more rest hmore => ?_
  exact .some (wellChained_chained ha hmore)

/-- A conditional is kept without children, and what is none is the operand itself. -/
theorem conditional_yields {a : Operand} (ha : WellChained a) (nested : Reader Operand) (ts : List Lexeme) :
    Yields WellChained (conditional nested a ts) := by
  unfold conditional
  split
  · exact .some ha
  · exact .after fun _ => .after fun _ => .after fun _ => .some (wellChained_kept _ _)

/-! ### Atoms -/

/-- What stands between brackets is well chained. -/
def Enclosed.WellChained : Enclosed → Prop
  | comprehension => True
  | elements es => es.WellChained

/-- What stands between brackets: elements, or a comprehension, which is kept without children. -/
theorem enclosed_yields (hnested : Gives nested WellChained) (close : String) (ts : List Lexeme) :
    Yields Enclosed.WellChained (enclosed nested primary close ts) := by
  unfold enclosed
  split
  · exact .some (wellChained_joints ts)
  · refine (element_yields hnested ts).bind fun a rest ha => .ite ?_ ?_
    · exact .after fun _ => .some trivial
    · exact (elementsFrom_yields hnested (wellChained_joints ts) ha close rest).bind fun es rest hes => .some hes

theorem collection_yields (hnested : Gives nested WellChained) (ts : List Lexeme) :
    Yields WellChained (collection nested primary ts) := by
  refine (enclosed_yields hnested "]" ts).bind fun inner rest hinner => ?_
  cases inner with
  | comprehension => exact .some (wellChained_kept _ _)
  | elements es => exact .some (Node.WellChained.list hinner)

/-- Parentheses around one expression leave no trace, so that a chain in them stays a chain of its own. -/
theorem bracketed_yields (hnested : Gives nested WellChained) (ts : List Lexeme) :
    Yields WellChained (bracketed nested primary ts) := by
  refine (enclosed_yields hnested ")" ts).bind fun inner rest hinner => ?_
  cases inner with
  | comprehension => exact .some (wellChained_kept _ _)
  | elements es =>
    refine .ite (.some (wellChained_kept _ _)) ?_
    split
    · rename_i node hnodes
      exact .some (hinner node (by rw [hnodes]; exact List.mem_singleton_self node))
    · exact .some (wellChained_kept _ _)

theorem braces_yields (nested primary : Reader Operand) (ts : List Lexeme) :
    Yields WellChained (braces nested primary ts) := by
  have hkept : ∀ kind rest, Yields WellChained (some (.opaqueKind kind, rest)) :=
    fun kind rest => .some (wellChained_kept kind false)
  unfold braces
  split
  · exact hkept _ _
  · refine .ite (hkept _ _) (.ite ?_ ?_)
    · exact .after fun _ => .after fun _ => hkept _ _
    · refine .after fun r => .ite ?_ ?_
      · exact .after fun _ => hkept _ _
      · split
        · exact .after fun _ => hkept _ _
        · refine .ite .none (.after fun r => .ite ?_ ?_)
          · exact .after fun _ => hkept _ _
          · exact .after fun _ => hkept _ _

theorem strings_yields (nested : Reader Operand) (ts : List Lexeme) :
    Yields WellChained (strings nested ts) :=
  .after fun _ => .after fun _ => .some (Node.WellChained.str _)

/-- All ways to begin an expression, one for each kind of first token. -/
theorem atom_yields (hnested : Gives nested WellChained) (ts : List Lexeme) :
    Yields WellChained (atom nested primary ts) := by
  unfold atom
  split
  · exact .some (Node.WellChained.name _)
  · exact .some (Node.WellChained.constant _)
  · exact .some (Node.WellChained.constant _)
  · exact .some (Node.WellChained.constant _)
  · exact .some (wellChained_kept _ _)
  · exact .some (wellChained_kept _ _)
  · exact .some (wellChained_kept _ _)
  · exact bracketed_yields hnested _
  · exact collection_yields hnested _
  · exact braces_yields nested primary _
  · exact strings_yields nested _

/-! ### Calls, attributes and subscripts -/

/-- The arguments of a call are well chained. -/
structure Arguments.WellChained (as : Arguments) : Prop where
  args : AllWellChained as.args
  keywords : ∀ kw ∈ as.keywords, kw.2.WellChained

theorem Arguments.WellChained.cons {a : Option String × Node} {as : Arguments} (ha : a.2.WellChained)
    (has : as.WellChained) : (Arguments.cons a as).WellChained := by
  obtain ⟨keyword, node⟩ := a
  cases keyword with
  | none => exact ⟨.cons ha has.args, has.keywords⟩
  | some keyword => exact ⟨has.args, List.forall_mem_cons.mpr ⟨ha, has.keywords⟩⟩

/-- Line continuations before an argument count as arguments in front of it. -/
theorem Arguments.WellChained.joined {before : List Node} {as : Arguments}
    (hbefore : AllWellChained before) (has : as.WellChained) : (as.joined before).WellChained :=
  ⟨hbefore.append has.args, has.keywords⟩

theorem wellChained_onlyJoints (ts : List Lexeme) : (⟨joints ts, []⟩ : Arguments).WellChained :=
  ⟨wellChained_joints ts, nofun⟩

/-- An argument has a keyword or none; what is to be shown is about its value. -/
theorem argument_yields (hnested : Gives nested WellChained) (ts : List Lexeme) :
    Yields (fun a => a.2.WellChained) (argument nested ts) := by
  unfold argument
  split
  · exact (hnested _).map fun a rest ha => ha
  · split
    · exact .mapped fun _ => Node.WellChained.other _
    · exact .mapped fun _ => Node.WellChained.other _
    · exact (hnested ts).map fun a rest ha => ha

theorem afterArgument_yields {more : Reader Arguments} (hmore : Gives more Arguments.WellChained)
    {before : List Node} (hbefore : AllWellChained before) {a : Option String × Node}
    (ha : a.2.WellChained) (ts : List Lexeme) : Yields Arguments.WellChained (afterArgument more before a ts) := by
  unfold afterArgument
  split
  · exact .some (((wellChained_onlyJoints ts).cons ha).joined hbefore)
  · refine .after fun rest => (hmore rest).bind fun as rest has => ?_
    exact .some (((has.joined (wellChained_joints ts)).cons ha).joined hbefore)

/-- Arguments are read one after the other; the induction is on how many there may be. -/
theorem arguments_yields (hnested : Gives nested WellChained) (n : Nat) (ts : List Lexeme) :
    Yields Arguments.WellChained (arguments nested n ts) := by
  induction n generalizing ts with
  | zero => exact .none
  | succ n ih =>
    unfold arguments
    split
    · exact .some (wellChained_onlyJoints ts)
    · refine (argument_yields hnested ts).bind fun a rest ha => ?_
      exact afterArgument_yields ih (wellChained_joints ts) ha rest

theorem callBrackets_yields (hnested : Gives nested WellChained) (ts : List Lexeme) :
    Yields Arguments.WellChained (callBrackets nested primary ts) := by
  unfold callBrackets
  split
  · exact .some (wellChained_onlyJoints ts)
  · exact .some ((wellChained_onlyJoints _).joined (wellChained_joints ts))
  · refine (argument_yields hnested ts).bind fun a rest ha => .ite ?_ ?_
    · exact .after fun _ => .some ⟨.cons (.other _) .nil, nofun⟩
    · exact afterArgument_yields (arguments_yields hnested rest.length) (wellChained_joints ts) ha rest

/-- Calls are built around what has been read so far. Attributes and subscripts are kept without children. -/
theorem trailers_yields (hnested : Gives nested WellChained) (n : Nat) {a : Operand}
    (ha : WellChained a) (ts : List Lexeme) : Yields WellChained (trailers nested primary n a ts) := by
  induction n generalizing a ts with
  | zero => exact .none
  | succ n ih =>
    unfold trailers
    split
    · exact ih (wellChained_kept "attribute" true) _
    · exact .none
    · refine (callBrackets_yields hnested _).bind fun as rest has => ?_
      have hcall : WellChained ⟨.call a.node as.args as.keywords, false⟩ := .call ha has.args has.keywords
      exact ih hcall rest
    · exact .after fun ts => ih (wellChained_kept "subscript" true) ts
    · exact .some ha

end Levels

/-! ### The knot -/

theorem primaryWith_yields {nested deeper : Reader Operand} (hnested : Gives nested WellChained)
    (ts : List Lexeme) : Yields WellChained (primaryWith nested deeper ts) :=
  (atom_yields hnested ts).bind fun _ rest ha => trailers_yields hnested _ ha rest

/-- A whole expression on one level: a lambda, or a disjunction that may be the first part of a conditional. -/
theorem level_yields {nested primary : Reader Operand} (hnested : Gives nested WellChained)
    (hprimary : Gives primary WellChained) (ts : List Lexeme) :
    Yields WellChained (level nested primary ts) := by
  unfold level
  split
  · exact .after fun _ => conditional_yields (wellChained_kept _ _) nested _
  · refine (disjunction_yields hnested hprimary ts).bind fun a rest ha => ?_
    exact conditional_yields ha nested rest

/-- Readers of any depth give what is well chained. -/
theorem readers_yields (depth : Nat) (ts : List Lexeme) : Yields WellChained ((readers depth).1 ts) := by
  induction depth generalizing ts with
  | zero => exact .none
  | succ depth ih => exact level_yields ih (primaryWith_yields ih) ts

/-- Expressions on all levels: the knot is tied by induction on how deep they may be nested. -/
theorem expression_yields (ts : List Lexeme) : Yields WellChained (expression ts) := readers_yields _ ts

/-! ## Statements -/

theorem opaqueStatement_yields (kind : String) (ts : List Lexeme) :
    Yields Node.WellChained (opaqueStatement kind ts) := .some (.other kind)

/-- Several expressions with commas between them are no statement that is looked into. -/
theorem expressionStatement_yields (ts : List Lexeme) : Yields Node.WellChained (expressionStatement ts) := by
  refine (element_yields expression_yields ts).bind fun a rest ha => .after fun ⟨more, after⟩ => ?_
  dsimp only
  have hassignment : ∀ n ts, Yields Node.WellChained (do opaqueStatement "assignment" (← assigned n ts)) :=
    fun n ts => .after fun ts => opaqueStatement_yields _ ts
  split
  · exact .ite (hassignment _ _) .none
  · refine .ite (.after fun r => ?_) .none
    split
    · exact hassignment _ _
    · exact opaqueStatement_yields _ _
  · split
    · exact .ite (.after fun ts => opaqueStatement_yields _ ts) .none
    · exact .ite (.some (.other _)) (.some ha)

theorem importFrom_yields (ts : List Lexeme) : Yields Node.WellChained (importFrom ts) := by
  have hnames : ∀ kind ts, Yields Node.WellChained (do
      let ts ← keyword "import" ts
      opaqueStatement kind (← importedNames ts)) :=
    fun _ _ => .after fun _ => .after fun _ => opaqueStatement_yields _ _
  exact .ite (.after fun _ => hnames _ _) (.after fun _ => hnames _ _)

/-- One case for each word that a statement may begin with. -/
theorem simpleStatement_yields (ts : List Lexeme) : Yields Node.WellChained (simpleStatement ts) := by
  have hkept : ∀ kind ts, Yields Node.WellChained (opaqueStatement kind ts) := opaqueStatement_yields
  unfold simpleStatement
  split
  · exact hkept _ _
  · exact hkept _ _
  · exact hkept _ _
  · exact .after fun _ => hkept _ _
  · exact .after fun _ => .ite (hkept _ _) .none
  · refine .after fun r => ?_
    dsimp only
    split
    · exact .after fun _ => hkept _ _
    · exact hkept _ _
  · refine .ite (hkept _ _) (.after fun r => ?_)
    dsimp only
    split
    · exact .after fun _ => hkept _ _
    · exact hkept _ _
  · exact .after fun _ => hkept _ _
  · exact .after fun _ => hkept _ _
  · exact .after fun _ => .after fun _ => hkept _ _
  · exact importFrom_yields _
  · exact expressionStatement_yields ts

theorem simpleLine_yields (n : Nat) (ts : List Lexeme) : Yields AllWellChained (simpleLine n ts) := by
  induction n generalizing ts with
  | zero => exact .none
  | succ n ih =>
    unfold simpleLine
    refine (simpleStatement_yields ts).bind fun stmt rest hstmt => ?_
    have hseparated : AllWellChained (joints ts ++ (stmt :: joints rest)) :=
      (wellChained_joints ts).append (.cons hstmt (wellChained_joints rest))
    dsimp only
    split
    · refine .ite (.some hseparated) ((ih _).bind fun more after hmore => ?_)
      exact .some (hseparated.append hmore)
    · exact .ite (.some ((wellChained_joints ts).append (.cons hstmt .nil))) .none

section Blocks

variable (block : Nat → Reader (List Node)) (level : Nat)

/-- A statement with blocks in it is kept as its kind only. -/
theorem compound_yields (ts : List Lexeme) : Yields Node.WellChained (compound block level ts) := by
  have hkept : ∀ kind ts, Yields Node.WellChained (opaqueStatement kind ts) := opaqueStatement_yields
  unfold compound
  split
  · exact .after fun _ => .after fun _ => .after fun _ => hkept _ _
  · exact .after fun _ => .after fun _ => .after fun _ => hkept _ _
  · exact .after fun _ => .after fun _ => .after fun _ => .after fun _ => .after fun _ => hkept _ _
  · refine .after fun _ => .after fun r => ?_
    have hfinally : ∀ ts, Yields Node.WellChained (do
        let finishes := (clause level "finally" ts).isSome
        let ts ← optionalClause block level "finally" ts
        if r.1 || finishes then opaqueStatement "try_statement" ts else none) :=
      fun _ => .after fun _ => .ite (hkept _ _) .none
    exact .ite (.after hfinally) (.after hfinally)
  · exact .after fun _ => .after fun _ => hkept _ _
  · exact .after fun _ => hkept _ _
  · exact .after fun _ => hkept _ _
  · exact .after fun _ => hkept _ _

/-- The statements of a block, line by line. Blocks inside it are given by `block`. -/
theorem lines_yields (n : Nat) (ts : List Lexeme) : Yields AllWellChained (lines block level n ts) := by
  induction n generalizing ts with
  | zero => exact .none
  | succ n ih =>
    have hmore : ∀ stmts rest, AllWellChained stmts → Yields AllWellChained
        ((lines block level n rest).bind fun more => some (stmts ++ more.1, more.2)) := by
      intro stmts rest hstmts
      refine (ih rest).bind fun more rest hmore => ?_
      exact .some (hstmts.append hmore)
    unfold lines
    split
    · exact .ite (.some .nil) (ih _)
    · exact .some .nil
    · exact .none
    · refine .ite (.bind ?_ hmore) ((simpleLine_yields _ ts).bind hmore)
      refine (compound_yields block level ts).map fun stmt rest hstmt => ?_
      exact (wellChained_joints ts).append (.cons hstmt .nil)

end Blocks

/-- Blocks on all levels, by induction on how deep they may be nested. -/
theorem blockWithin_yields (depth level : Nat) (ts : List Lexeme) :
    Yields AllWellChained (blockWithin depth level ts) := by
  cases depth with
  | zero => exact .none
  | succ depth => exact lines_yields (blockWithin depth) level _ ts

/-- **Every chain of a source text has at least two operands.** -/
theorem wellChained_of_parse {origin text : String} {node : Node} (h : parse origin text = .ok node) :
    node.WellChained := by
  unfold parse at h
  split at h
  · rename_i stmts hstmts
    obtain ⟨ts, -, hfile⟩ := Option.bind_eq_some_iff.mp hstmts
    cases h
    apply Node.WellChained.file
    unfold fileStatements at hfile
    obtain ⟨⟨before, rest⟩, hblock, hlast⟩ := Option.bind_eq_some_iff.mp hfile
    have hbefore : AllWellChained before := blockWithin_yields _ 0 ts before rest hblock
    dsimp only at hlast
    split at hlast
    · rename_i last
      split at hlast
      · cases hlast
        exact hbefore.append (wellChained_joints [last])
      · cases hlast
    · cases hlast
  · cases h

end Source
end TableSpec
