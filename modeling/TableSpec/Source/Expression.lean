import TableSpec.Source.Node
import TableSpec.Source.Token

/-!
# `TableSpec.Source.Expression` — expressions of a specification file

An expression is read from the tokens of a file into a `Node`. Whatever the specification grammar does
not use (numbers, operators, comprehensions, ...) is read in full and kept as an `other` node.

Each reader below is one level of the grammar, *given* the reader `nested` of the expressions inside it
(in brackets, after a lambda, after `else`). `expression` ties the knot: a nested expression begins
behind at least one token, so the number of tokens bounds the nesting.

## Contents
- `Reader`, `Operand`, and `tail` for separated repetitions.
- Atoms: `atom`, `bracketed`, `collection`, `braces`, `strings`, `arguments`, `trailers`.
- Operators, from the tightest up: `operand`, `arithmetic`, `comparison`, `inversion`, `conjunction`,
  `disjunction`, `level`.
- `expression`.
-/

namespace TableSpec

/-- A reader takes what it reads from the front of the tokens, or fails. -/
abbrev Reader (α : Type) := List Lexeme → Option (α × List Lexeme)

/-- What an expression was read into, and whether it may stand left of an assignment. -/
structure Operand where
  node : Node
  target : Bool
  deriving Repr, Inhabited

namespace Operand

/-- An expression that the specification grammar does not use. -/
def opaqueKind (kind : String) : Operand := ⟨.other kind, false⟩

end Operand

namespace Source

/-! ## Small readers -/

/-- The token in front. -/
def peek? : List Lexeme → Option Token
  | l :: _ => some l.token
  | [] => none

/-- Whether the mark `mark` is in front. -/
def atSymbol (mark : String) (ts : List Lexeme) : Bool := peek? ts == some (.symbol mark)

/-- Whether the reserved word `word` is in front. -/
def atKeyword (word : String) (ts : List Lexeme) : Bool := peek? ts == some (.keyword word)

/-- Whether the ordinary word `word` is in front. -/
def atName (word : String) (ts : List Lexeme) : Bool := peek? ts == some (.name word)

/-- Take the mark `mark`. -/
def symbol (mark : String) (ts : List Lexeme) : Option (List Lexeme) :=
  if atSymbol mark ts then some ts.tail else none

/-- Take the reserved word `word`. -/
def keyword (word : String) (ts : List Lexeme) : Option (List Lexeme) :=
  if atKeyword word ts then some ts.tail else none

/-- Take an identifier. -/
def identifier : Reader String
  | ⟨_, .name id⟩ :: ts => some (id, ts)
  | _ => none

/-- The joined line ends before the token in front, as elements of the list that they stand in. -/
def joints (ts : List Lexeme) : List Node :=
  match ts with
  | l :: _ => List.replicate l.joints (.other "line_continuation")
  | [] => []

/-- Items that each follow a separator. Once a separator is taken an item has to follow. The number
    bounds how many there may be. -/
def tail {α : Type} (separator : List Lexeme → Option (List Lexeme)) (item : Reader α) :
    Nat → Reader (List α)
  | 0, _ => none
  | n + 1, ts =>
    match separator ts with
    | none => some ([], ts)
    | some ts => do
      let (a, ts) ← item ts
      let (as, ts) ← tail separator item n ts
      return (a :: as, ts)

/-- As many items as the tokens may hold, each after a separator. -/
def repeated {α : Type} (separator : List Lexeme → Option (List Lexeme)) (item : Reader α) :
    Reader (List α) := fun ts => tail separator item (ts.length + 1) ts

/-! ## Parameters -/

section Levels

variable (nested : Reader Operand)

/-- The default of a parameter, if one is given. -/
def parameterDefault (ts : List Lexeme) : Option (List Lexeme) :=
  match symbol "=" ts with
  | some ts => (nested ts).map Prod.snd
  | none => some ts

/-- The type of a parameter, if one is given and allowed. -/
def parameterType (typed : Bool) (ts : List Lexeme) : Option (List Lexeme) :=
  match typed, symbol ":" ts with
  | true, some ts => (nested ts).map Prod.snd
  | _, _ => some ts

/-- One parameter of a function. -/
def parameter (typed : Bool) (ts : List Lexeme) : Option (List Lexeme) :=
  match peek? ts with
  | some (.name _) => (parameterType nested typed ts.tail).bind (parameterDefault nested)
  | some (.symbol "*") | some (.symbol "**") =>
    match ts.tail with
    | ⟨_, .name _⟩ :: rest => parameterType nested typed rest
    | rest => if atSymbol "*" ts then some rest else none
  | some (.symbol "/") => some ts.tail
  | _ => none

/-- The parameters up to a closing mark, which is taken; the number bounds how many there may be. -/
def parameters (typed : Bool) (close : String) : Nat → List Lexeme → Option (List Lexeme)
  | 0, _ => none
  | n + 1, ts =>
    match symbol close ts with
    | some ts => some ts
    | none => do
      let ts ← parameter nested typed ts
      match symbol "," ts with
      | some ts => parameters typed close n ts
      | none => symbol close ts

/-- A function without a name, from its reserved word on. -/
def lambda : Reader Operand := fun ts => do
  let ts ← keyword "lambda" ts
  let ts ← parameters nested false ":" (ts.length + 1) ts
  let (body, ts) ← nested ts
  return (⟨.lambda body.node, false⟩, ts)

/-! ## Elements of brackets -/

/-- `yield`, with or without values. -/
def yielded : Reader Operand := fun ts => do
  let ts ← keyword "yield" ts
  match keyword "from" ts with
  | some ts => (nested ts).map (fun r => (.opaqueKind "yield", r.2))
  | none =>
    match nested ts with
    | none => return (.opaqueKind "yield", ts)
    | some (_, ts) =>
      let (_, ts) ← repeated (symbol ",") nested ts
      return (.opaqueKind "yield", ts)

/-- A starred expression. -/
def starred : Reader Operand := fun ts => do
  let ts ← symbol "*" ts
  let (a, ts) ← nested ts
  return (⟨.other "list_splat", a.target⟩, ts)

/-- An element of a bracket or of a list of expressions. -/
def element : Reader Operand := fun ts =>
  if atKeyword "yield" ts then yielded nested ts
  else if atSymbol "*" ts then starred nested ts
  else nested ts

/-- What stands between two brackets: the elements, with the joints between them as elements of their
    own, whether all may be assigned to, and whether a comma was there. -/
structure Elements where
  nodes : List Node
  target : Bool
  commas : Bool
  deriving Repr, Inhabited

/-- What follows an element: the closing mark, or a comma and `more`. The joints before the element are
    given; those before the mark come after it. -/
def afterElement (close : String) (more : Reader Elements) (before : List Node) (a : Operand) :
    Reader Elements := fun ts =>
  match symbol close ts with
  | some rest => some (⟨before ++ a.node :: joints ts, a.target, false⟩, rest)
  | none => do
    let rest ← symbol "," ts
    let (es, rest) ← more rest
    return (⟨before ++ a.node :: (joints ts ++ es.nodes), a.target && es.target, true⟩, rest)

/-- The elements from a place where an element or the closing mark may stand; the number bounds how many
    there may be. -/
def elements (close : String) : Nat → Reader Elements
  | 0, _ => none
  | n + 1, ts =>
    match symbol close ts with
    | some rest => some (⟨joints ts, true, false⟩, rest)
    | none => do
      let (a, rest) ← element nested ts
      afterElement close (elements close n) (joints ts) a rest

/-- The elements that follow a first one that has been read. -/
def elementsFrom (close : String) (before : List Node) (a : Operand) : Reader Elements := fun ts =>
  afterElement close (elements nested close ts.length) before a ts

/-- A target of a loop: something that may be assigned to, read without operators. -/
def loopTarget (primary : Reader Operand) : Reader Unit := fun ts => do
  let ts := (symbol "*" ts).getD ts
  let (a, ts) ← primary ts
  if a.target then return ((), ts) else none

/-- The targets of a loop. -/
def loopTargets (primary : Reader Operand) : Nat → Reader Unit
  | 0, _ => none
  | n + 1, ts => do
    let (_, ts) ← loopTarget primary ts
    match symbol "," ts with
    | some ts => if atKeyword "in" ts then return ((), ts) else loopTargets primary n ts
    | none => return ((), ts)

/-- Whether a comprehension goes on here. -/
def atLoop (ts : List Lexeme) : Bool :=
  atKeyword "for" ts || (atName "async" ts && atKeyword "for" ts.tail)

/-- Leave out the word before an asynchronous loop. -/
def dropAsync (ts : List Lexeme) : List Lexeme := if atName "async" ts then ts.tail else ts

/-- The loops and conditions of a comprehension; `primary` reads targets and `simple` what stands
    right of `in` and `if`. -/
def comprehension (primary simple : Reader Operand) : Nat → Reader Unit
  | 0, _ => none
  | n + 1, ts =>
    if atLoop ts then do
      let ts ← keyword "for" (dropAsync ts)
      let (_, ts) ← loopTargets primary (ts.length + 1) ts
      let ts ← keyword "in" ts
      let (_, ts) ← simple ts
      comprehension primary simple n ts
    else if atKeyword "if" ts then do
      let (_, ts) ← simple ts.tail
      comprehension primary simple n ts
    else some ((), ts)

/-! ## Operators -/

/-- The marks of two-sided operators, the power apart. -/
def binaryMarks : List String := ["+", "-", "*", "/", "//", "%", "@", "<<", ">>", "&", "|", "^"]

/-- The marks of comparisons. -/
def comparisonMarks : List String := ["<", "<=", "==", "!=", ">=", ">", "<>"]

/-- Take one of the given marks. -/
def oneOf (marks : List String) (ts : List Lexeme) : Option (List Lexeme) :=
  match peek? ts with
  | some (.symbol mark) => if marks.contains mark then some ts.tail else none
  | _ => none

/-- Take the operator of a comparison. -/
def comparisonOperator (ts : List Lexeme) : Option (List Lexeme) :=
  match oneOf comparisonMarks ts with
  | some ts => some ts
  | none =>
    match keyword "in" ts with
    | some ts => some ts
    | none =>
      match keyword "not" ts with
      | some ts => keyword "in" ts
      | none => (keyword "is" ts).map (fun ts => (keyword "not" ts).getD ts)

/-- Whether an operand may begin here. -/
def atOperand (ts : List Lexeme) : Bool :=
  match peek? ts with
  | some (.name _) | some .integer | some .float | some (.str _) | some .formatOpen => true
  | some (.keyword word) => word == "True" || word == "False" || word == "None"
  | some (.symbol mark) => mark == "(" || mark == "[" || mark == "\x7b" || mark == "..."
  | _ => false

/-- The kinds of the one-sided operators in front, outermost first, and what follows them. -/
def signs : List Lexeme → List String × List Lexeme
  | [] => ([], [])
  | t :: ts =>
    if t.token = .symbol "-" ∨ t.token = .symbol "+" ∨ t.token = .symbol "~" then
      let (more, rest) := signs ts
      ("unary_operator" :: more, rest)
    else if t.token = .name "await" ∧ atOperand ts then
      let (more, rest) := signs ts
      ("await" :: more, rest)
    else ([], t :: ts)

/-- Leave out one-sided operators before an operand of a power. -/
def signed (primary : Reader Operand) : Reader Operand := fun ts => primary (signs ts).2

/-- An operand of an operator: one-sided operators around a power. -/
def operand (primary : Reader Operand) : Reader Operand := fun ts => do
  let (kinds, ts) := signs ts
  let (base, ts) ← primary ts
  let (powers, ts) ← repeated (symbol "**") (signed primary) ts
  match kinds with
  | kind :: _ => return (.opaqueKind kind, ts)
  | [] => if powers.isEmpty then return (base, ts) else return (.opaqueKind "binary_operator", ts)

/-- Operands joined by two-sided operators. -/
def arithmetic (primary : Reader Operand) : Reader Operand := fun ts => do
  let (a, ts) ← operand primary ts
  let (more, ts) ← repeated (oneOf binaryMarks) (operand primary) ts
  if more.isEmpty then return (a, ts) else return (.opaqueKind "binary_operator", ts)

/-- A chain of comparisons. -/
def comparison (primary : Reader Operand) : Reader Operand := fun ts => do
  let (a, ts) ← arithmetic primary ts
  let (more, ts) ← repeated comparisonOperator (arithmetic primary) ts
  if more.isEmpty then return (a, ts) else return (.opaqueKind "comparison_operator", ts)

/-- The text after the words `not` in front. -/
def dropNots : List Lexeme → List Lexeme
  | [] => []
  | t :: ts => if t.token = .keyword "not" then dropNots ts else t :: ts

/-- A comparison or a function without a name, possibly negated. -/
def inversion (primary : Reader Operand) : Reader Operand := fun ts => do
  let rest := dropNots ts
  let (a, rest) ← if atKeyword "lambda" rest then lambda nested rest else comparison primary rest
  if atKeyword "not" ts then return (.opaqueKind "not_operator", rest) else return (a, rest)

/-- One operand or a chain of several. -/
def chained (op : Connective) (first : Operand) (more : List Operand) : Operand :=
  if more.isEmpty then first else ⟨.chain op (first.node :: more.map Operand.node), false⟩

/-- Operands joined by `and`. -/
def conjunction (primary : Reader Operand) : Reader Operand := fun ts => do
  let (a, ts) ← inversion nested primary ts
  let (more, ts) ← repeated (keyword "and") (inversion nested primary) ts
  return (chained .and a more, ts)

/-- Operands joined by `or`. -/
def disjunction (primary : Reader Operand) : Reader Operand := fun ts => do
  let (a, ts) ← conjunction nested primary ts
  let (more, ts) ← repeated (keyword "or") (conjunction nested primary) ts
  return (chained .or a more, ts)

/-- The condition after an expression, if there is one. -/
def conditional (a : Operand) : Reader Operand := fun ts =>
  match keyword "if" ts with
  | none => some (a, ts)
  | some ts => do
    let (_, ts) ← nested ts
    let ts ← keyword "else" ts
    let (_, ts) ← nested ts
    return (.opaqueKind "conditional_expression", ts)

/-! ## Atoms -/

/-- A bracket's loops and conditions, and its closing mark. -/
def loops (primary : Reader Operand) (close : String) (ts : List Lexeme) : Option (List Lexeme) := do
  let (_, ts) ← comprehension primary (disjunction nested primary) (ts.length + 1) ts
  symbol close ts

/-- Whether a comprehension may go on after an element: the element is at `ts`, and `rest` is after it. -/
def loopsAfter (ts rest : List Lexeme) : Bool :=
  atLoop rest && !atSymbol "*" ts && !atSymbol "**" ts && !atKeyword "yield" ts

/-- What stands between brackets that hold a list of elements: nothing but loops over one element, or the
    elements. -/
inductive Enclosed where
  | comprehension
  | elements (es : Elements)
  deriving Repr, Inhabited

/-- What stands between brackets, from after the opening one. -/
def enclosed (primary : Reader Operand) (close : String) : Reader Enclosed := fun ts =>
  match symbol close ts with
  | some rest => some (.elements ⟨joints ts, true, false⟩, rest)
  | none => do
    let (a, rest) ← element nested ts
    if loopsAfter ts rest then
      let rest ← loops nested primary close rest
      return (.comprehension, rest)
    else
      let (es, rest) ← elementsFrom nested close (joints ts) a rest
      return (.elements es, rest)

/-- A list, from after its opening bracket. -/
def collection (primary : Reader Operand) : Reader Operand := fun ts => do
  match ← enclosed nested primary "]" ts with
  | (.comprehension, rest) => return (.opaqueKind "list_comprehension", rest)
  | (.elements es, rest) => return (⟨.list es.nodes, es.target⟩, rest)

/-- Parentheses, from after the opening one. Around one expression they do not count, unless a joint
    stands between them; everything else between them makes a tuple. -/
def bracketed (primary : Reader Operand) : Reader Operand := fun ts => do
  match ← enclosed nested primary ")" ts with
  | (.comprehension, rest) => return (.opaqueKind "generator_expression", rest)
  | (.elements es, rest) =>
    if es.commas || atSymbol "*" ts || atSymbol ")" ts then return (⟨.other "tuple", es.target⟩, rest)
    else match es.nodes with
      | [node] => return (⟨node, es.target⟩, rest)
      | _ => return (⟨.other "parenthesized_expression", es.target⟩, rest)

/-- One entry of a dictionary; whether it is a pair. -/
def entry : Reader Bool := fun ts =>
  match symbol "**" ts with
  | some ts => (nested ts).map (fun r => (false, r.2))
  | none => do
    let (_, ts) ← nested ts
    let ts ← symbol ":" ts
    let (_, ts) ← nested ts
    return (true, ts)

/-- The entries of a dictionary up to its closing brace. -/
def entries : Nat → List Lexeme → Option (List Lexeme)
  | 0, _ => none
  | n + 1, ts =>
    match symbol "\x7d" ts with
    | some ts => some ts
    | none => do
      let (_, ts) ← entry nested ts
      match symbol "\x7d" ts with
      | some ts => some ts
      | none => (symbol "," ts).bind (entries n)

/-- What follows an entry: the closing brace, or a comma and more entries. -/
def afterEntry (ts : List Lexeme) : Option (List Lexeme) :=
  match symbol "\x7d" ts with
  | some ts => some ts
  | none => (symbol "," ts).bind (entries nested ts.length)

/-- A dictionary or a set, from after its opening brace. -/
def braces (primary : Reader Operand) : Reader Operand := fun ts =>
  match (symbol "," ts).bind (symbol "\x7d") with
  | some rest => some (.opaqueKind "dictionary", rest)
  | none =>
    if atSymbol "\x7d" ts then some (.opaqueKind "dictionary", ts.tail)
    else if atSymbol "**" ts then do
      let (_, rest) ← entry nested ts
      let rest ← afterEntry nested rest
      return (.opaqueKind "dictionary", rest)
    else do
      let (a, rest) ← element nested ts
      if loopsAfter ts rest then
        let rest ← loops nested primary "\x7d" rest
        return (.opaqueKind "set_comprehension", rest)
      else match symbol ":" rest with
        | none =>
          let (_, rest) ← elementsFrom nested "\x7d" [] a rest
          return (.opaqueKind "set", rest)
        | some rest =>
          if atSymbol "*" ts || atKeyword "yield" ts then none
          else
            let (_, rest) ← nested rest
            if atLoop rest then
              let rest ← loops nested primary "\x7d" rest
              return (.opaqueKind "dictionary_comprehension", rest)
            else
              let rest ← afterEntry nested rest
              return (.opaqueKind "dictionary", rest)

/-- The tokens of formatted strings from inside an expression on: up to the close of the string, whose
    value is the answer. The number bounds how many expressions there may be. -/
def holes : Nat → Reader String
  | 0, _ => none
  | n + 1, ts =>
    match ts with
    | ⟨_, .formatClose value⟩ :: ts => some (value, ts)
    | ⟨_, .holeOpen⟩ :: ts => do
      let (_, ts) ← element nested ts
      let (_, ts) ← repeated (symbol ",") (element nested) ts
      let ts := (symbol "," ts).getD ts
      let ts := (symbol "=" ts).getD ts
      let ts ← match symbol "!" ts with
        | some ts => (identifier ts).map Prod.snd
        | none => some ts
      match ts with
      | ⟨_, .holeLayout⟩ :: ts => holes n ts
      | ⟨_, .holeClose⟩ :: ts => holes n ts
      | _ => none
    | ⟨_, .holeClose⟩ :: ts => holes n ts
    | _ => none

/-- One string literal. -/
def stringPiece : Reader String := fun ts =>
  match ts with
  | ⟨_, .str value⟩ :: ts => some (value, ts)
  | ⟨_, .formatOpen⟩ :: ts => holes nested (ts.length + 1) ts
  | _ => none

/-- Whether a string literal is in front. -/
def atString (ts : List Lexeme) : Option (List Lexeme) :=
  match peek? ts with
  | some (.str _) | some .formatOpen => some ts
  | _ => none

/-- Adjacent string literals, which make one string. -/
def strings : Reader Operand := fun ts => do
  let (first, ts) ← stringPiece nested ts
  let (more, ts) ← repeated atString (stringPiece nested) ts
  return (⟨.str (String.join (first :: more)), false⟩, ts)

/-- A smallest expression: a name, a constant, a number, strings, or something in brackets. -/
def atom (primary : Reader Operand) : Reader Operand := fun ts =>
  match ts with
  | ⟨_, .name id⟩ :: ts => some (⟨.name id, true⟩, ts)
  | ⟨_, .keyword "True"⟩ :: ts => some (⟨.constant .true, false⟩, ts)
  | ⟨_, .keyword "False"⟩ :: ts => some (⟨.constant .false, false⟩, ts)
  | ⟨_, .keyword "None"⟩ :: ts => some (⟨.constant .none, false⟩, ts)
  | ⟨_, .integer⟩ :: ts => some (.opaqueKind "integer", ts)
  | ⟨_, .float⟩ :: ts => some (.opaqueKind "float", ts)
  | ⟨_, .symbol "..."⟩ :: ts => some (.opaqueKind "ellipsis", ts)
  | ⟨_, .symbol "("⟩ :: ts => bracketed nested primary ts
  | ⟨_, .symbol "["⟩ :: ts => collection nested primary ts
  | ⟨_, .symbol "\x7b"⟩ :: ts => braces nested primary ts
  | ts => strings nested ts

/-! ## Calls, attributes and subscripts -/

/-- What the brackets of a call hold. -/
structure Arguments where
  args : List Node
  keywords : List (String × Node)
  deriving Repr, Inhabited

/-- One argument: a value, or a keyword and its value. -/
def argument : Reader (Option String × Node) := fun ts =>
  match ts with
  | ⟨_, .name id⟩ :: ⟨_, .symbol "="⟩ :: rest => (nested rest).map (fun r => ((some id, r.1.node), r.2))
  | _ =>
    match symbol "*" ts, symbol "**" ts with
    | some rest, _ => (nested rest).map (fun r => ((none, .other "list_splat"), r.2))
    | _, some rest => (nested rest).map (fun r => ((none, .other "dictionary_splat"), r.2))
    | _, _ => (nested ts).map (fun r => ((none, r.1.node), r.2))

/-- Put an argument before others. -/
def Arguments.cons (a : Option String × Node) (as : Arguments) : Arguments :=
  match a with
  | (some keyword, node) => { as with keywords := (keyword, node) :: as.keywords }
  | (none, node) => { as with args := node :: as.args }

/-- Put joints before the other arguments. -/
def Arguments.joined (before : List Node) (as : Arguments) : Arguments :=
  { as with args := before ++ as.args }

/-- What follows an argument: the closing bracket, or a comma and `more`. The joints before the argument
    are given; those before the mark come after it. -/
def afterArgument (more : Reader Arguments) (before : List Node) (a : Option String × Node) :
    Reader Arguments := fun ts =>
  match symbol ")" ts with
  | some rest => some (((Arguments.cons a ⟨joints ts, []⟩).joined before), rest)
  | none => do
    let rest ← symbol "," ts
    let (as, rest) ← more rest
    return ((Arguments.cons a (as.joined (joints ts))).joined before, rest)

/-- The arguments of a call, from a place where one or the closing bracket may stand; the number bounds
    how many there may be. Positional arguments and keyword arguments keep their order; a joint counts as
    a positional argument. -/
def arguments : Nat → Reader Arguments
  | 0, _ => none
  | n + 1, ts =>
    match symbol ")" ts with
    | some rest => some (⟨joints ts, []⟩, rest)
    | none => do
      let (a, rest) ← argument nested ts
      afterArgument (arguments n) (joints ts) a rest

/-- A call's brackets, from after the opening one. They may hold a lone comma, and a comprehension
    without brackets of its own. -/
def callBrackets (primary : Reader Operand) : Reader Arguments := fun ts =>
  match symbol ")" ts, (symbol "," ts).bind (fun rest => (symbol ")" rest).map (fun after => (rest, after))) with
  | some rest, _ => some (⟨joints ts, []⟩, rest)
  | none, some (rest, after) => some (⟨joints ts ++ joints rest, []⟩, after)
  | none, none => do
    let (a, rest) ← argument nested ts
    if a.1.isNone && loopsAfter ts rest then
      let rest ← loops nested primary ")" rest
      return (⟨[.other "generator_expression"], []⟩, rest)
    else afterArgument (arguments nested rest.length) (joints ts) a rest

/-- An expression that may be left out, before one of the marks that end a part of a slice. -/
def optional (ends : List String) (ts : List Lexeme) : Option (List Lexeme) :=
  match oneOf ends ts with
  | some _ => some ts
  | none => (nested ts).map Prod.snd

/-- One subscript: an expression or a slice. -/
def subscript (ts : List Lexeme) : Option (List Lexeme) := do
  let ts ← if atSymbol "*" ts then (starred nested ts).map Prod.snd else optional nested [":"] ts
  match symbol ":" ts with
  | none => return ts
  | some ts =>
    let ts ← optional nested [":", ",", "]"] ts
    match symbol ":" ts with
    | none => return ts
    | some ts => optional nested [",", "]"] ts

/-- The subscripts up to the closing bracket; the number bounds how many there may be. -/
def subscripts : Nat → List Lexeme → Option (List Lexeme)
  | 0, _ => none
  | n + 1, ts => do
    let ts ← subscript nested ts
    match symbol "]" ts with
    | some ts => return ts
    | none =>
      let ts ← symbol "," ts
      match symbol "]" ts with
      | some ts => return ts
      | none => subscripts n ts

/-- The calls, attributes and subscripts that follow an expression, innermost first; the number bounds
    how many there may be. -/
def trailers (primary : Reader Operand) : Nat → Operand → Reader Operand
  | 0, _, _ => none
  | n + 1, a, ts =>
    match ts with
    | ⟨_, .symbol "."⟩ :: ⟨_, .name _⟩ :: ts => trailers primary n ⟨.other "attribute", true⟩ ts
    | ⟨_, .symbol "."⟩ :: _ => none
    | ⟨_, .symbol "("⟩ :: ts => do
      let (as, ts) ← callBrackets nested primary ts
      trailers primary n ⟨.call a.node as.args as.keywords, false⟩ ts
    | ⟨_, .symbol "["⟩ :: ts => do
      let ts ← subscripts nested (ts.length + 1) ts
      trailers primary n ⟨.other "subscript", true⟩ ts
    | ts => some (a, ts)

end Levels

/-! ## The knot -/

/-- An expression without operators: an atom with the calls, attributes and subscripts after it. The
    targets of a comprehension inside it are read by `deeper`. -/
def primaryWith (nested deeper : Reader Operand) : Reader Operand := fun ts => do
  let (a, ts) ← atom nested deeper ts
  trailers nested deeper (ts.length + 1) a ts

/-- One level of expressions, given the readers of nested ones: a value with a name before it, or a
    disjunction; then, possibly, its condition. -/
def level (nested primary : Reader Operand) : Reader Operand := fun ts =>
  match ts with
  | ⟨_, .name _⟩ :: ⟨_, .symbol ":="⟩ :: rest => do
    let (_, rest) ← disjunction nested primary rest
    conditional nested (.opaqueKind "named_expression") rest
  | _ => do
    let (a, rest) ← disjunction nested primary ts
    conditional nested a rest

/-- The readers of expressions and of expressions without operators that are nested at most `depth`
    deep. -/
def readers : Nat → Reader Operand × Reader Operand
  | 0 => (fun _ => none, fun _ => none)
  | depth + 1 =>
    let (nested, deeper) := readers depth
    let primary := primaryWith nested deeper
    (level nested primary, primary)

/-- An expression. -/
def expression : Reader Operand := fun ts => (readers (ts.length + 1)).1 ts

/-- An expression without operators. -/
def primary : Reader Operand := fun ts => (readers (ts.length + 1)).2 ts

end Source
end TableSpec
