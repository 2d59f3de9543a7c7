import TableSpec.Declaration

/-!
# `Proofs.Source.Walk` — the walk through a syntax tree

The walk goes through a tree by cases on its nodes. Here it is said once in terms of `Node.children`: a node, and
then, unless it is refused, the walks of its children one after the other (`walk_eq`). The declarations of a tree
are what is found on such a walk, so they follow the same rule (`declarations_eq`), and what holds of a tree and
passes from nodes to their children holds of every node on the walk (`forall_mem_walk`).

## Contents
- `Node.children_induction`: induction over a tree by the children of its nodes.
- `Node.walk_eq`, `Node.forall_mem_walk`.
- `Node.isSearched`, `declarations_eq`, `declarations_file`.
- `Declaration.ofCall_eq_known`, `exists_of_mem_declarations`.
-/

namespace TableSpec
namespace Node

variable {node child : Node} {descend : Node → Bool}

/-! ## Children -/

theorem sizeOf_lt_of_mem_values {keywords : List (String × Node)} (h : child ∈ keywords.map Prod.snd) :
    sizeOf child < sizeOf keywords := by
  obtain ⟨kw, hkw, rfl⟩ := List.mem_map.mp h
  have hlist := List.sizeOf_lt_of_mem hkw
  have hpair : sizeOf kw.2 < sizeOf kw := by
    obtain ⟨keyword, value⟩ := kw
    simp only [Prod.mk.sizeOf_spec]
    omega
  omega

theorem sizeOf_lt_of_mem_children (h : child ∈ node.children) : sizeOf child < sizeOf node := by
  cases node with
  | file nodes | list nodes =>
    have hlist := List.sizeOf_lt_of_mem (show child ∈ nodes from h)
    simp only [file.sizeOf_spec, list.sizeOf_spec]
    omega
  | chain op operands =>
    have hlist := List.sizeOf_lt_of_mem (show child ∈ operands from h)
    simp only [chain.sizeOf_spec]
    omega
  | lambda body =>
    obtain rfl := List.mem_singleton.mp h
    simp only [lambda.sizeOf_spec]
    omega
  | call callee args keywords =>
    simp only [call.sizeOf_spec]
    rcases List.mem_cons.mp h with rfl | h
    · omega
    rcases List.mem_append.mp h with h | h
    · have hlist := List.sizeOf_lt_of_mem h
      omega
    · have hvalues := sizeOf_lt_of_mem_values h
      omega
  | name _ | str _ | constant _ | other _ => cases h

/-- What holds of a node whenever it holds of its children holds of every node. -/
theorem children_induction {motive : Node → Prop} (h : ∀ node, (∀ child ∈ node.children, motive child) → motive node)
    (node : Node) : motive node :=
  h node fun child _ => children_induction h child
termination_by sizeOf node
decreasing_by exact sizeOf_lt_of_mem_children ‹_›

/-! ## The walk -/

theorem walkAll_eq (descend : Node → Bool) (nodes : List Node) :
    walkAll descend nodes = nodes.flatMap (walk descend) := by
  induction nodes with
  | nil => rfl
  | cons node rest ih => rw [walkAll, ih, List.flatMap_cons]

theorem walkValues_eq (descend : Node → Bool) (keywords : List (String × Node)) :
    walkValues descend keywords = (keywords.map Prod.snd).flatMap (walk descend) := by
  induction keywords with
  | nil => rfl
  | cons kw rest ih => rw [walkValues, ih, List.map_cons, List.flatMap_cons]

/-- A node is followed by the walks of its children, unless it is refused. -/
theorem walk_eq (descend : Node → Bool) (node : Node) :
    node.walk descend = node :: if descend node then node.children.flatMap (walk descend) else [] := by
  rw [walk.eq_def]
  by_cases hdescend : descend node = true
  · rw [if_pos hdescend, hdescend]
    cases node with
    | file nodes | list nodes | chain _ nodes =>
      simp only [walkAll_eq, children]
    | call callee args keywords =>
      simp only [walkAll_eq, walkValues_eq, children, List.flatMap_cons, List.flatMap_append, List.append_assoc]
    | lambda body => simp only [children, List.flatMap_singleton]
    | name _ | str _ | constant _ | other _ => rfl
  · rw [if_neg hdescend, Bool.eq_false_iff.mpr hdescend]

/-- What passes from nodes to their children holds of everything on a walk. -/
theorem forall_mem_walk {motive : Node → Prop} (hchild : ∀ node, motive node → ∀ child ∈ node.children, motive child)
    (hnode : motive node) : ∀ n ∈ node.walk descend, motive n := by
  induction node using children_induction with
  | h node ih =>
    intro n hn
    rw [walk_eq] at hn
    rcases List.mem_cons.mp hn with rfl | hn
    · exact hnode
    · by_cases hdescend : descend node = true
      · rw [if_pos hdescend] at hn
        obtain ⟨child, hmem, hn⟩ := List.mem_flatMap.mp hn
        exact ih child hmem (hchild node hnode child hmem) n hn
      · rw [if_neg hdescend] at hn
        cases hn

/-! ## Declarations -/

/-- Whether the children of a node are searched for declarations. -/
def isSearched (node : Node) : Bool := ((Declaration.ofNode? node).map Declaration.descends).getD true

end Node

/-- The declarations of a tree are the one that its root is, if any, and those of the root's children, if they
    are searched. -/
theorem declarations_eq (node : Node) :
    declarations node = (Declaration.ofNode? node).toList ++
      if node.isSearched then node.children.flatMap declarations else [] := by
  show (node.walk Node.isSearched).filterMap Declaration.ofNode? = _
  rw [Node.walk_eq, List.filterMap_cons]
  have hbelow : (if node.isSearched then node.children.flatMap (Node.walk Node.isSearched) else []).filterMap
      Declaration.ofNode? = if node.isSearched then node.children.flatMap declarations else [] := by
    by_cases hsearched : node.isSearched = true
    · rw [if_pos hsearched, if_pos hsearched, List.filterMap_flatMap]
      rfl
    · rw [if_neg hsearched, if_neg hsearched]
      rfl
  rw [hbelow]
  cases Declaration.ofNode? node <;> rfl

/-- The declarations of a file are those of its statements. -/
theorem declarations_file (stmts : List Node) : declarations (.file stmts) = stmts.flatMap declarations := by
  rw [declarations_eq]
  rfl

theorem Declaration.ofCall_eq_known {call call' : Call} {form : Form} :
    ofCall call = known form call' ↔ call = call' ∧ call.calleeName? = some form.word := by
  constructor
  · intro h
    unfold ofCall at h
    split at h
    · cases h
    · rename_i callee hname
      split at h
      · rename_i form' hform
        cases h
        rw [hname, Form.ofWord?_eq_some.mp hform]
        exact ⟨rfl, rfl⟩
      · cases h
  · rintro ⟨rfl, hname⟩
    unfold ofCall
    rw [hname]
    dsimp only
    rw [Form.ofWord?_word]

/-- A declaration is a call that is on the walk. -/
theorem exists_of_mem_declarations {node : Node} {d : Declaration} (h : d ∈ declarations node) :
    ∃ call : Call, call.node ∈ node.walk Node.isSearched ∧ Declaration.ofCall call = d := by
  obtain ⟨n, hn, hnode⟩ := List.mem_filterMap.mp h
  obtain ⟨call, hcall, hd⟩ := Option.map_eq_some_iff.mp hnode
  obtain rfl := Node.asCall?_eq_some.mp hcall
  exact ⟨call, hn, hd⟩

end TableSpec
