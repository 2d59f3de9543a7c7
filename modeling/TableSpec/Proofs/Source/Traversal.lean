import Mathlib.Data.List.Basic
import TableSpec.Proofs.Source.Walk

/-!
# `Proofs.Source.Traversal` — the walk in source order

A tree may hold the same node more than once, so what a walk visits are places: a place says by which child to go on,
step by step from the root. Places are ordered as texts are in a dictionary. In this order a node stands before all
that is below it, and what is below one child stands before what is below the next.

A walk visits the places that are below no refused node (`Node.Reached`), each of them once and in this order
(`inSourceOrder_walk`). Declarations are found on such a walk, and so the same can be said of them, without the walk:
they are the calls that stand in no call but those few that are searched (`inSourceOrder_declarations`).

The walk is a list of nodes here. With a visitor that has a state of its own it is a run, which comes to the same:
the visitor sees the nodes of the list one after the other (`run_visit`).

## Contents
- `Node.Place`, `Node.at?`, `Node.Reached`. `reached_iff`: one step down from the root.
- `Node.InSourceOrder`: lists that hold what is found at places. `InSourceOrder.filterMap`, `InSourceOrder.flatMap`,
  `InSourceOrder.cons`: how such lists are made of others.
- `inSourceOrder_walk`.
- `Node.visit`: the walk with a visitor. `visit_eq`, `run_visit`.
- `Node.Searched`, `isSearched_iff`: the nodes that are searched for declarations. `inSourceOrder_declarations`,
  `run_visit_declare`.
- `walk_inSourceOrder`: all of it.
-/

namespace TableSpec
namespace Node

variable {α β σ : Type} {root n : Node}

/-! ## Places -/

/-- Which child to go to from the root, which of its children from there, and so on. -/
abbrev Place := List Nat

/-- The node at a place, if there is one. -/
def at? (node : Node) : Place → Option Node
  | [] => some node
  | i :: rest => node.children[i]?.bind (fun child => child.at? rest)

/-- A node is at a place, and all nodes above it are passed. -/
def Reached (passed : Node → Prop) (root : Node) (place : Place) (n : Node) : Prop :=
  root.at? place = some n ∧
    ∀ above m, above <+: place → above ≠ place → root.at? above = some m → passed m

variable {passed : Node → Prop}

/-- A place is the root, or it is in one of the root's children. -/
theorem reached_iff {place : Place} : Reached passed root place n ↔ place = [] ∧ n = root ∨
    passed root ∧ ∃ i rest child, place = i :: rest ∧ root.children[i]? = some child ∧ Reached passed child rest n := by
  constructor
  · rintro ⟨hat, habove⟩
    cases place with
    | nil => exact Or.inl ⟨rfl, (Option.some.inj hat).symm⟩
    | cons i rest =>
      obtain ⟨child, hchild, hat⟩ := Option.bind_eq_some_iff.mp hat
      have hroot : passed root := habove [] root List.nil_prefix (List.cons_ne_nil i rest).symm rfl
      refine Or.inr ⟨hroot, i, rest, child, rfl, hchild, hat, ?_⟩
      intro above m hprefix hne hm
      refine habove (i :: above) m (List.cons_prefix_cons.mpr ⟨rfl, hprefix⟩) (by simpa using hne) ?_
      exact Option.bind_eq_some_iff.mpr ⟨child, hchild, hm⟩
  · rintro (⟨rfl, rfl⟩ | ⟨hroot, i, rest, child, rfl, hchild, hat, habove⟩)
    · refine ⟨rfl, ?_⟩
      intro above m hprefix hne
      exact absurd (List.prefix_nil.mp hprefix) hne
    · refine ⟨Option.bind_eq_some_iff.mpr ⟨child, hchild, hat⟩, ?_⟩
      intro above m hprefix hne hm
      rcases List.prefix_cons_iff.mp hprefix with rfl | ⟨above, rfl, hbelow⟩
      · rwa [← Option.some.inj hm]
      · obtain ⟨child', hchild', hm⟩ := Option.bind_eq_some_iff.mp hm
        obtain rfl := Option.some.inj (hchild.symm.trans hchild')
        exact habove above m hbelow (by simpa using hne) hm

theorem Reached.congr {passed' : Node → Prop} (h : ∀ m, passed m ↔ passed' m) {place : Place} :
    Reached passed root place n ↔ Reached passed' root place n := by
  unfold Reached
  simp only [h]

/-! ## Source order -/

/-- A list holds what is at places, once for each place and in their order. -/
def InSourceOrder (item : Place → α → Prop) (as : List α) : Prop :=
  ∃ found : List (Place × α), found.Pairwise (fun e e' => e.1 < e'.1) ∧
    (∀ place a, (place, a) ∈ found ↔ item place a) ∧ found.map Prod.snd = as

/-- What is made of some of the elements stands in the order of these. -/
theorem InSourceOrder.filterMap {item : Place → α → Prop} {as : List α} (h : InSourceOrder item as)
    (f : α → Option β) : InSourceOrder (fun place b => ∃ a, item place a ∧ f a = some b) (as.filterMap f) := by
  obtain ⟨found, horder, hmem, rfl⟩ := h
  refine ⟨found.filterMap (fun e => (f e.2).map (fun b => (e.1, b))), ?_, ?_, ?_⟩
  · rw [List.pairwise_filterMap]
    refine horder.imp ?_
    intro e e' hlt b hb b' hb'
    obtain ⟨-, -, rfl⟩ := Option.map_eq_some_iff.mp hb
    obtain ⟨-, -, rfl⟩ := Option.map_eq_some_iff.mp hb'
    exact hlt
  · intro place b
    rw [List.mem_filterMap]
    constructor
    · rintro ⟨⟨place', a⟩, he, hb⟩
      obtain ⟨b', hb', heq⟩ := Option.map_eq_some_iff.mp hb
      obtain ⟨rfl, rfl⟩ := Prod.mk.inj heq
      exact ⟨a, (hmem _ _).mp he, hb'⟩
    · rintro ⟨a, ha, hb⟩
      exact ⟨(place, a), (hmem _ _).mpr ha, Option.map_eq_some_iff.mpr ⟨b, hb, rfl⟩⟩
  · rw [List.map_filterMap, List.filterMap_map]
    congr 1
    funext e
    show ((f e.2).map _).map Prod.snd = f e.2
    rw [Option.map_map]
    exact Option.map_id'

/-- What is at the places in several nodes, one node after the other, is at the places below a node that has these
    as its children. -/
theorem InSourceOrder.flatMap {item : Node → Place → α → Prop} {content : Node → List α} {nodes : List Node}
    (h : ∀ child ∈ nodes, InSourceOrder (item child) (content child)) :
    InSourceOrder (fun place a => ∃ i rest child, place = i :: rest ∧ nodes[i]? = some child ∧ item child rest a)
      (nodes.flatMap content) := by
  choose! found horder hmem hcontent using h
  have hchild : ∀ e ∈ nodes.zipIdx, nodes[e.2]? = some e.1 ∧ e.1 ∈ nodes := by
    intro e he
    have hget := List.mem_zipIdx_iff_getElem?.mp he
    exact ⟨hget, List.mem_of_getElem? hget⟩
  refine ⟨nodes.zipIdx.flatMap (fun e => (found e.1).map (fun f => (e.2 :: f.1, f.2))), ?_, ?_, ?_⟩
  · rw [List.pairwise_flatMap]
    constructor
    · intro e he
      rw [List.pairwise_map]
      exact (horder e.1 (hchild e he).2).imp fun hlt => List.cons_lt_cons_iff.mpr (Or.inr ⟨rfl, hlt⟩)
    · have hindices : nodes.zipIdx.Pairwise (fun e e' => e.2 < e'.2) := by
        rw [← List.pairwise_map, List.zipIdx_map_snd]
        exact List.pairwise_lt_range'
      refine hindices.imp ?_
      intro e e' hlt f hf f' hf'
      obtain ⟨-, -, rfl⟩ := List.mem_map.mp hf
      obtain ⟨-, -, rfl⟩ := List.mem_map.mp hf'
      exact List.cons_lt_cons_iff.mpr (Or.inl hlt)
  · intro place a
    rw [List.mem_flatMap]
    constructor
    · rintro ⟨e, he, hplace⟩
      obtain ⟨⟨rest, a'⟩, hf, heq⟩ := List.mem_map.mp hplace
      obtain ⟨rfl, rfl⟩ := Prod.mk.inj heq
      exact ⟨e.2, rest, e.1, rfl, (hchild e he).1, (hmem e.1 (hchild e he).2 _ _).mp hf⟩
    · rintro ⟨i, rest, child, rfl, hget, hitem⟩
      refine ⟨(child, i), List.mem_zipIdx_iff_getElem?.mpr hget, List.mem_map.mpr ⟨(rest, a), ?_, rfl⟩⟩
      exact (hmem child (List.mem_of_getElem? hget) _ _).mpr hitem
  · have hnodes : nodes.flatMap content = nodes.zipIdx.flatMap (fun e => content e.1) := by
      rw [← List.flatMap_map Prod.fst, List.zipIdx_map_fst]
    rw [List.map_flatMap, hnodes]
    refine List.flatMap_congr fun e he => ?_
    rw [List.map_map, ← hcontent e.1 (hchild e he).2]
    rfl

/-- What is at the root comes before all that is below it. -/
theorem InSourceOrder.cons {item : Place → α → Prop} {a : α} {as : List α} (h : InSourceOrder item as)
    (hbelow : ∀ b, ¬item [] b) : InSourceOrder (fun place b => place = [] ∧ b = a ∨ item place b) (a :: as) := by
  obtain ⟨found, horder, hmem, rfl⟩ := h
  refine ⟨([], a) :: found, ?_, ?_, rfl⟩
  · refine List.pairwise_cons.mpr ⟨?_, horder⟩
    rintro ⟨place, b⟩ hplace
    cases place with
    | nil => exact absurd ((hmem _ _).mp hplace) (hbelow b)
    | cons i rest => exact List.nil_lt_cons i rest
  · intro place b
    rw [List.mem_cons, Prod.mk.injEq, hmem]

theorem inSourceOrder_nil : InSourceOrder (fun _ _ => False) ([] : List α) :=
  ⟨[], List.Pairwise.nil, by simp, rfl⟩

theorem InSourceOrder.congr {item item' : Place → α → Prop} {as : List α} (h : InSourceOrder item as)
    (heq : ∀ place a, item place a ↔ item' place a) : InSourceOrder item' as := by
  obtain ⟨found, horder, hmem, hlist⟩ := h
  exact ⟨found, horder, fun place a => (hmem place a).trans (heq place a), hlist⟩

/-- A walk visits what is below no refused node. -/
theorem inSourceOrder_walk (descend : Node → Bool) (root : Node) :
    InSourceOrder (Reached (fun m => descend m = true) root) (root.walk descend) := by
  induction root using children_induction with
  | h node ih =>
    rw [walk_eq]
    by_cases hdescend : descend node = true
    · rw [if_pos hdescend]
      have hbelow := InSourceOrder.flatMap ih
      refine (hbelow.cons ?_).congr ?_
      · rintro b ⟨i, rest, child, ⟨⟩, -⟩
      · intro place n
        constructor
        · intro h
          exact reached_iff.mpr (h.imp_right fun hchild => ⟨hdescend, hchild⟩)
        · intro h
          exact (reached_iff.mp h).imp_right And.right
    · rw [if_neg hdescend]
      refine (inSourceOrder_nil.cons fun b => id).congr ?_
      intro place n
      constructor
      · intro h
        exact reached_iff.mpr (h.imp_right False.elim)
      · intro h
        exact (reached_iff.mp h).imp_right fun hchild => hdescend hchild.1

/-! ## Visitors -/

mutual

/-- Go through a tree with a visitor that has a state of its own. The visitor is shown the node, and says whether it
    is to be shown what is below the node. -/
def visit (visitor : Node → StateM σ Bool) (node : Node) : StateM σ Unit := do
  if ← visitor node then
    match node with
    | file statements => visitAll visitor statements
    | call callee args keywords => do
      visit visitor callee
      visitAll visitor args
      visitValues visitor keywords
    | list items => visitAll visitor items
    | lambda body => visit visitor body
    | chain _ operands => visitAll visitor operands
    | name _ | str _ | constant _ | other _ => pure ()

/-- Go through several nodes, one after the other. -/
def visitAll (visitor : Node → StateM σ Bool) : List Node → StateM σ Unit
  | [] => pure ()
  | node :: rest => do
    visit visitor node
    visitAll visitor rest

/-- Go through the values of keyword arguments, one after the other. -/
def visitValues (visitor : Node → StateM σ Bool) : List (String × Node) → StateM σ Unit
  | [] => pure ()
  | (_, node) :: rest => do
    visit visitor node
    visitValues visitor rest

end

theorem visitAll_eq (visitor : Node → StateM σ Bool) (nodes : List Node) :
    visitAll visitor nodes = nodes.forM (visit visitor) := by
  induction nodes with
  | nil => rfl
  | cons node rest ih =>
    rw [visitAll, ih]
    rfl

theorem visitValues_eq (visitor : Node → StateM σ Bool) (keywords : List (String × Node)) :
    visitValues visitor keywords = (keywords.map Prod.snd).forM (visit visitor) := by
  induction keywords with
  | nil => rfl
  | cons kw rest ih =>
    rw [visitValues, ih]
    rfl

/-- What is below a node are its children. -/
theorem visit_eq (visitor : Node → StateM σ Bool) (node : Node) :
    node.visit visitor = do { if (← visitor node) then node.children.forM (visit visitor) } := by
  rw [visit.eq_def]
  congr 1
  funext goOn
  cases goOn with
  | false => rfl
  | true =>
    cases node with
    | file nodes | list nodes | chain _ nodes => exact visitAll_eq visitor nodes
    | call callee args keywords =>
      simp only [visitAll_eq, visitValues_eq, children, List.forM_eq_forM, List.cons_append, List.forM_cons,
        List.forM_append, if_true]
    | lambda body => simp only [children, List.forM_eq_forM, List.forM_cons, List.forM_nil, if_true, bind_pure_unit]
    | name _ | str _ | constant _ | other _ => rfl

/-- A visitor that changes its state at every node, and decides by the node alone whether to go on. -/
def deciding (descend : Node → Bool) (act : σ → Node → σ) (node : Node) : StateM σ Bool := do
  modify (fun s => act s node)
  pure (descend node)

/-- A loop of actions that have no answer is a fold of what they do to the state. -/
theorem run_forM {action : α → StateM σ Unit} {step : σ → α → σ} {as : List α}
    (h : ∀ a ∈ as, ∀ s, (action a).run s = ((), step s a)) (s : σ) :
    (as.forM action).run s = ((), as.foldl step s) := by
  induction as generalizing s with
  | nil => rfl
  | cons a rest ih =>
    show (action a >>= fun _ => rest.forM action).run s = _
    rw [StateT.run_bind, h a List.mem_cons_self s]
    exact ih (fun a' ha' => h a' (List.mem_cons_of_mem a ha')) (step s a)

/-- The visitor is shown the nodes of the walk, one after the other. -/
theorem run_visit (descend : Node → Bool) (act : σ → Node → σ) (root : Node) (s : σ) :
    (root.visit (deciding descend act)).run s = ((), (root.walk descend).foldl act s) := by
  induction root using children_induction generalizing s with
  | h node ih =>
    have hnode : (deciding descend act node).run s = (descend node, act s node) := rfl
    rw [visit_eq, walk_eq, List.foldl_cons, StateT.run_bind, hnode]
    show StateT.run (if descend node then _ else _) (act s node) = _
    by_cases hdescend : descend node = true
    · rw [if_pos hdescend, if_pos hdescend, List.foldl_flatMap]
      exact run_forM ih (act s node)
    · rw [if_neg hdescend, if_neg hdescend]
      rfl

/-! ## Declarations -/

/-- A visitor that puts down each call as the declaration that it is, and goes on below some of them. -/
def declare : Node → StateM (List Declaration) Bool
  | call callee args keywords => do
    let d := Declaration.ofCall ⟨callee, args, keywords⟩
    modify (fun ds => ds ++ [d])
    pure d.descends
  | _ => pure true

/-- The declarations of a tree are what this visitor puts down. -/
theorem run_visit_declare (root : Node) : (root.visit declare).run [] = ((), declarations root) := by
  have hdeclare : declare = deciding isSearched (fun ds n => ds ++ (Declaration.ofNode? n).toList) := by
    funext n ds
    cases n with
    | call callee args keywords => rfl
    | _ =>
      show (true, ds) = (true, ds ++ [])
      rw [List.append_nil]
  rw [hdeclare, run_visit, List.foldl_append_eq_append, List.nil_append, ← List.flatMap_def,
    ← List.filterMap_eq_flatMap_toList]
  rfl

/-- The names whose calls are searched for further declarations. -/
def searchedNames : List String := ["table_name", "description", "schema", "implementation"]

/-- A node that is searched for declarations: a call to one of these names, or no call at all. -/
def Searched (node : Node) : Prop := ∀ c : Call, node = c.node → ∃ callee ∈ searchedNames, c.callee = .name callee

/-- The names that are looked into are those of the forms that descend. -/
theorem mem_searchedNames_iff (form : Form) : form.word ∈ searchedNames ↔ form.descends = true := by
  cases form <;> decide

theorem exists_form_of_mem_searchedNames : ∀ callee ∈ searchedNames, ∃ form ∈ Form.all, form.word = callee := by
  decide

/-- Whether a call is looked into is said by its callee. -/
theorem descends_ofCall (c : Call) :
    (Declaration.ofCall c).descends = true ↔ ∃ callee ∈ searchedNames, c.callee = .name callee := by
  constructor
  · intro hdescends
    cases hd : Declaration.ofCall c with
    | known form c' =>
      rw [hd] at hdescends
      obtain ⟨-, hname⟩ := Declaration.ofCall_eq_known.mp hd
      exact ⟨form.word, (mem_searchedNames_iff form).mpr hdescends, asName?_eq_some.mp hname⟩
    | unknown callee | unnamed =>
      rw [hd] at hdescends
      cases hdescends
  · rintro ⟨callee, hcallee, hname⟩
    obtain ⟨form, -, rfl⟩ := exists_form_of_mem_searchedNames callee hcallee
    rw [Declaration.ofCall_eq_known.mpr ⟨rfl, asName?_eq_some.mpr hname⟩]
    exact (mem_searchedNames_iff form).mp hcallee

theorem isSearched_iff (node : Node) : node.isSearched = true ↔ node.Searched := by
  cases hcall : node.asCall? with
  | none =>
    have hsearched : node.isSearched = true := by simp [isSearched, Declaration.ofNode?, hcall]
    refine iff_of_true hsearched ?_
    rintro c rfl
    cases hcall
  | some c =>
    obtain rfl := asCall?_eq_some.mp hcall
    refine (descends_ofCall c).trans ⟨?_, fun h => h c rfl⟩
    intro h c' hnode
    have hcalls : c = c' := Option.some.inj (congrArg asCall? hnode)
    rwa [← hcalls]

/-- The declarations of a tree are its calls that are in no call but those that are searched. -/
theorem inSourceOrder_declarations (root : Node) : InSourceOrder
    (fun place d => ∃ c : Call, Reached Searched root place c.node ∧ d = Declaration.ofCall c)
    (declarations root) := by
  have hwalk := (inSourceOrder_walk isSearched root).filterMap Declaration.ofNode?
  refine hwalk.congr ?_
  intro place d
  constructor
  · rintro ⟨n, hn, hd⟩
    obtain ⟨c, hc, rfl⟩ := Option.map_eq_some_iff.mp hd
    obtain rfl := asCall?_eq_some.mp hc
    exact ⟨c, (Reached.congr isSearched_iff).mp hn, rfl⟩
  · rintro ⟨c, hc, rfl⟩
    exact ⟨c.node, (Reached.congr isSearched_iff).mpr hc, rfl⟩

/-- **The walk visits what is below no refused node, in source order.** It visits each place once. The children of a
    node are gone through from the first to the last, of a call its callee, its positional arguments and the values of
    its keyword arguments. A visitor with a state is shown the same nodes. The declarations of a tree are the calls of
    it that are in no call but those that are searched, in the same order, and those of a file are the ones of its
    statements. -/
theorem walk_inSourceOrder :
    (∀ (descend : Node → Bool) (root : Node),
      InSourceOrder (Reached (fun m => descend m = true) root) (root.walk descend)) ∧
    (∀ {σ : Type} (descend : Node → Bool) (act : σ → Node → σ) (root : Node) (s : σ),
      (root.visit (deciding descend act)).run s = ((), (root.walk descend).foldl act s)) ∧
    (∀ root : Node,
      InSourceOrder (fun place d => ∃ c : Call, Reached Searched root place c.node ∧ d = Declaration.ofCall c)
        (declarations root) ∧
      (root.visit declare).run [] = ((), declarations root)) ∧
    ∀ statements : List Node, declarations (.file statements) = statements.flatMap declarations := by
  refine ⟨inSourceOrder_walk, run_visit, ?_, declarations_file⟩
  intro root
  exact ⟨inSourceOrder_declarations root, run_visit_declare root⟩

example : ((file [call (name "schema") [list [call (name "Column") [] []]] [],
    call (name "attributes") [call (name "hidden") [] []] []]).walk
      (fun n => (n.asCall?.bind Call.calleeName?) != some "attributes")).filterMap
        (fun n => n.asCall?.bind Call.calleeName?) = ["schema", "Column", "attributes"] := by
  decide

end Node
end TableSpec
