import TableSpec.Scalar

/-!
# `TableSpec.Source.Node` — the syntax tree of a specification file

A `.table` file is written as a sequence of calls. Of its syntax the library keeps the few forms that
a specification may use; every other construct is an `other` node that only knows what it was, so that
a message can say so.

## Contents
- `Node`, with `Call` for the pieces of a call.
- `Node.describe`: the word for a node in messages.
- `Node.walk`: the nodes in source order, children of refused nodes left out.
- `Literal`: the nodes that stand for a value, and their coercions to option values and keys.
-/

namespace TableSpec

/-- The named constants. -/
inductive Constant where
  | true
  | false
  | none
  deriving DecidableEq, Repr, Inhabited

/-- The word that spells a constant. -/
def Constant.word : Constant → String
  | .true => "True"
  | .false => "False"
  | .none => "None"

/-- The connectives whose operands are kept. -/
inductive Connective where
  | and
  | or
  deriving DecidableEq, Repr, Inhabited

/-- The word that spells a connective. -/
def Connective.word : Connective → String
  | .and => "and"
  | .or => "or"

/-- A node of the syntax tree. -/
inductive Node where
  /-- A whole file. -/
  | file (statements : List Node)
  /-- A call: callee, positional arguments, keyword arguments in order. -/
  | call (callee : Node) (args : List Node) (keywords : List (String × Node))
  | name (id : String)
  | str (value : String)
  | constant (value : Constant)
  | list (items : List Node)
  /-- A function without a name; its parameters are not kept. -/
  | lambda (body : Node)
  /-- A chain of operands joined by one connective. -/
  | chain (op : Connective) (operands : List Node)
  /-- A construct outside the specification grammar. -/
  | other (kind : String)
  deriving Repr, Inhabited

/-- The pieces of a call. -/
structure Call where
  callee : Node
  args : List Node
  keywords : List (String × Node)
  deriving Repr, Inhabited

namespace Node

/-- The word for a node in messages. -/
def describe : Node → String
  | file _ => "module"
  | call _ _ _ => "call"
  | name _ => "name"
  | str _ => "string"
  | constant _ => "constant"
  | list _ => "list"
  | lambda _ => "lambda"
  | chain .and _ => "boolean AND"
  | chain .or _ => "boolean OR"
  | other kind => kind

/-- The value of a string node. -/
def asText? : Node → Option String
  | str s => some s
  | _ => none

/-- The identifier of a name node. -/
def asName? : Node → Option String
  | name id => some id
  | _ => none

/-- The pieces of a call node. -/
def asCall? : Node → Option Call
  | call callee args keywords => some ⟨callee, args, keywords⟩
  | _ => none

/-- The children of a node in source order: of a call its callee, its positional arguments and then
    the values of its keyword arguments. -/
def children : Node → List Node
  | file statements => statements
  | call callee args keywords => callee :: args ++ keywords.map Prod.snd
  | list items => items
  | lambda body => [body]
  | chain _ operands => operands
  | name _ | str _ | constant _ | other _ => []

/-! ## The walk -/

mutual

/-- The nodes from `node` down in source order, a node before its children. The children of a node
    that `descend` refuses are left out; the node itself is not. -/
def walk (descend : Node → Bool) (node : Node) : List Node :=
  node :: match descend node, node with
    | false, _ => []
    | true, file statements => walkAll descend statements
    | true, call callee args keywords =>
      walk descend callee ++ walkAll descend args ++ walkValues descend keywords
    | true, list items => walkAll descend items
    | true, lambda body => walk descend body
    | true, chain _ operands => walkAll descend operands
    | true, name _ | true, str _ | true, constant _ | true, other _ => []

/-- The walks of several nodes, one after the other. -/
def walkAll (descend : Node → Bool) : List Node → List Node
  | [] => []
  | node :: rest => walk descend node ++ walkAll descend rest

/-- The walks of the values of keyword arguments, one after the other. -/
def walkValues (descend : Node → Bool) : List (String × Node) → List Node
  | [] => []
  | (_, node) :: rest => walk descend node ++ walkValues descend rest

end

/-- The statements of a file; any other node stands for itself. -/
def statements : Node → List Node
  | file stmts => stmts
  | node => [node]

/-- The first statement of a file that has one; any other node is itself. -/
def firstStatement : Node → Node
  | file (stmt :: _) => stmt
  | node => node

end Node

namespace Call

/-- The node that a call is. -/
def node (c : Call) : Node := .call c.callee c.args c.keywords

/-- The callee's identifier, when the callee is a bare name. -/
def calleeName? (c : Call) : Option String := c.callee.asName?

/-- A positional argument. -/
def arg? (c : Call) (i : Nat) : Option Node := c.args[i]?

end Call

theorem Node.asName?_eq_some {node : Node} {id : String} : node.asName? = some id ↔ node = .name id := by
  cases node <;> simp [Node.asName?]

theorem Node.asCall?_eq_some {node : Node} {c : Call} : node.asCall? = some c ↔ node = c.node := by
  cases node <;> simp [Node.asCall?, Call.node]
  rename_i callee args keywords
  cases c
  simp

/-! ## Literals -/

/-- A literal argument, with the way it was spelled. -/
inductive Literal where
  | text (value : String)
  | identifier (value : String)
  | bool (value : Bool)
  | none
  deriving DecidableEq, Repr, Inhabited

namespace Literal

/-- The literal that a node is, if it is one. -/
def ofNode? : Node → Option Literal
  | .str s => some (text s)
  | .name id => some (identifier id)
  | .constant .true => some (bool true)
  | .constant .false => some (bool false)
  | .constant .none => some none
  | _ => Option.none

/-- The option value of a literal: an identifier counts as its own text. -/
def scalar : Literal → Scalar
  | text s | identifier s => .text s
  | bool b => .bool b
  | none => .null

/-- The key of a literal, where it names something: a constant names its own word. -/
def key : Literal → String
  | text s | identifier s => s
  | bool true => "True"
  | bool false => "False"
  | none => "None"

end Literal

/-- The option values of keyword arguments, in order; keywords whose value is no literal are left
    out. -/
def literalKeywords (keywords : List (String × Node)) : List (String × Scalar) :=
  keywords.filterMap (fun kw => (Literal.ofNode? kw.2).map (fun l => (kw.1, l.scalar)))

end TableSpec
