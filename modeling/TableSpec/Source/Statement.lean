import TableSpec.Error
import TableSpec.Source.Expression

/-!
# `TableSpec.Source.Statement` — statements of a specification file

A file is a sequence of statements. Those that are a single expression are kept as that expression;
every other statement is read in full, with the statements inside it, and kept as an `other` node of its
kind.

How far a line is indented decides which block it belongs to: a block goes on as long as its lines are
indented at least as far as its first one.

## Contents
- One-line statements: `expressionStatement`, `simpleStatement`, `simpleLine`.
- Statements with blocks: `suite`, `compound`, given the reader of blocks.
- `block` ties the knot; `parse` reads a whole file.
-/

namespace TableSpec
namespace Source

/-! ## One-line statements -/

/-- A statement that is kept as its kind only. -/
def opaqueStatement (kind : String) (ts : List Lexeme) : Option (Node × List Lexeme) :=
  some (.other kind, ts)

/-- Take a comma, if one is there. -/
def optionalComma (ts : List Lexeme) : List Lexeme := (symbol "," ts).getD ts

/-- Whether a list of expressions may go on here. -/
def atExpression (ts : List Lexeme) : Bool :=
  match peek? ts with
  | some (.symbol mark) => ["(", "[", "\x7b", "...", "-", "+", "~", "*"].contains mark
  | some (.keyword word) => ["True", "False", "None", "not", "lambda", "yield"].contains word
  | some (.newline _) | some .finish => false
  | some _ => true
  | none => false

/-- Take a comma that an expression follows. -/
def commaBefore (ts : List Lexeme) : Option (List Lexeme) :=
  match symbol "," ts with
  | some rest => if atExpression rest then some rest else none
  | none => none

/-- Several expressions with commas between them and possibly one after them. -/
def expressionList : Reader (List Operand) := fun ts => do
  let (a, ts) ← element expression ts
  let (more, ts) ← repeated commaBefore (element expression) ts
  return (a :: more, optionalComma ts)

/-- The marks of assignments that also compute. -/
def augmentedMarks : List String :=
  ["+=", "-=", "*=", "/=", "//=", "%=", "@=", ">>=", "<<=", "&=", "^=", "|=", "**="]

/-- The right side of an assignment; all but its last part have to be targets. The number bounds how many
    parts there may be. -/
def assigned : Nat → List Lexeme → Option (List Lexeme)
  | 0, _ => none
  | n + 1, ts => do
    let (values, ts) ← expressionList ts
    match symbol "=" ts with
    | some ts => if values.all Operand.target then assigned n ts else none
    | none => return ts

/-- A statement that begins with an expression: the expression itself, a list of expressions, or an
    assignment. -/
def expressionStatement : Reader Node := fun ts => do
  let (a, rest) ← element expression ts
  let (more, after) ← repeated commaBefore (element expression) rest
  let single := more.isEmpty
  let targets := a.target && more.all Operand.target
  let last := optionalComma after
  match peek? last with
  | some (.symbol "=") =>
    if targets then opaqueStatement "assignment" (← assigned last.length last.tail) else none
  | some (.symbol ":") =>
    if targets && single then
      let (_, typed) ← expression last.tail
      match symbol "=" typed with
      | some value => opaqueStatement "assignment" (← assigned value.length value)
      | none => opaqueStatement "assignment" typed
    else none
  | _ =>
    match oneOf augmentedMarks last with
    | some value =>
      if targets && single then opaqueStatement "augmented_assignment" (← assigned 1 value) else none
    | none =>
      if !single || (atSymbol "," after && !(joints after).isEmpty) then
        return (.other "expression_statement", last)
      else return (a.node, last)

/-- Whether a one-line statement is over. -/
def atStatementEnd (ts : List Lexeme) : Bool :=
  match peek? ts with
  | some (.newline _) | some .finish => true
  | _ => atSymbol ";" ts

/-- Expressions that may be left out at the end of a statement. -/
def optionalList (ts : List Lexeme) : Option (List Lexeme) :=
  if atStatementEnd ts then some ts else (expressionList ts).map Prod.snd

/-- A name with points in it. -/
def dottedName (ts : List Lexeme) : Option (List Lexeme) := do
  let (_, ts) ← identifier ts
  let (_, ts) ← repeated (symbol ".") identifier ts
  return ts

/-- Another name for what is imported, if one is given. -/
def renamed (ts : List Lexeme) : Option (List Lexeme) :=
  match keyword "as" ts with
  | some ts => (identifier ts).map Prod.snd
  | none => some ts

/-- One thing that is imported. -/
def imported : Reader Unit := fun ts => do
  let ts ← dottedName ts
  return ((), ← renamed ts)

/-- The points before the name of a relative module. -/
def relativePoints : List Lexeme → List Lexeme
  | [] => []
  | t :: ts => if t.token = .symbol "." ∨ t.token = .symbol "..." then relativePoints ts else t :: ts

/-- Take a comma that a name follows. -/
def commaBeforeName (ts : List Lexeme) : Option (List Lexeme) :=
  match symbol "," ts with
  | some rest => (identifier rest).map (fun _ => rest)
  | none => none

/-- What is imported from a module: everything, or a list in or without parentheses. -/
def importedNames (ts : List Lexeme) : Option (List Lexeme) :=
  match symbol "*" ts with
  | some ts => some ts
  | none =>
    match symbol "(" ts with
    | some ts => do
      let (_, ts) ← imported ts
      let (_, ts) ← repeated commaBeforeName imported ts
      symbol ")" (optionalComma ts)
    | none => do
      let (_, ts) ← imported ts
      let (_, ts) ← repeated (symbol ",") imported ts
      return ts

/-- An import from a module, from after its first word. -/
def importFrom : Reader Node := fun ts => do
  let after := relativePoints ts
  let relative := after.length != ts.length
  let future := !relative && atName "__future__" after
  let after ← if relative && atKeyword "import" after then some after else dottedName after
  let after ← keyword "import" after
  let after ← importedNames after
  opaqueStatement (if future then "future_import_statement" else "import_from_statement") after

/-- Names with commas between them. -/
def names (ts : List Lexeme) : Option (List Lexeme) := do
  let (_, ts) ← identifier ts
  let (_, ts) ← repeated (symbol ",") identifier ts
  return ts

/-- A statement that may share its line with others. -/
def simpleStatement : Reader Node := fun ts =>
  match peek? ts with
  | some (.keyword "pass") => opaqueStatement "pass_statement" ts.tail
  | some (.keyword "break") => opaqueStatement "break_statement" ts.tail
  | some (.keyword "continue") => opaqueStatement "continue_statement" ts.tail
  | some (.keyword "return") => do opaqueStatement "return_statement" (← optionalList ts.tail)
  | some (.keyword "del") => do
    let (values, rest) ← expressionList ts.tail
    if values.all Operand.target then opaqueStatement "delete_statement" rest else none
  | some (.keyword "assert") => do
    let (_, rest) ← expression ts.tail
    match symbol "," rest with
    | some rest => opaqueStatement "assert_statement" (← expression rest).2
    | none => opaqueStatement "assert_statement" rest
  | some (.keyword "raise") => do
    if atStatementEnd ts.tail then opaqueStatement "raise_statement" ts.tail
    else
      let (_, rest) ← expression ts.tail
      match keyword "from" rest with
      | some rest => opaqueStatement "raise_statement" (← expression rest).2
      | none => opaqueStatement "raise_statement" rest
  | some (.keyword "global") => do opaqueStatement "global_statement" (← names ts.tail)
  | some (.keyword "nonlocal") => do opaqueStatement "nonlocal_statement" (← names ts.tail)
  | some (.keyword "import") => do
    let (_, rest) ← imported ts.tail
    let (_, rest) ← repeated (symbol ",") imported rest
    opaqueStatement "import_statement" rest
  | some (.keyword "from") => importFrom ts.tail
  | _ => expressionStatement ts

/-- The statements of one line, up to its end, which is left. Joints between statements are statements of
    their own. The number bounds how many statements there may be. -/
def simpleLine : Nat → Reader (List Node)
  | 0, _ => none
  | n + 1, ts => do
    let (stmt, rest) ← simpleStatement ts
    match symbol ";" rest with
    | some after =>
      let separated := stmt :: joints rest
      if atStatementEnd after && !atSymbol ";" after then
        return (joints ts ++ separated, after)
      else
        let (more, after) ← simpleLine n after
        return (joints ts ++ separated ++ more, after)
    | none => if atStatementEnd rest then return (joints ts ++ [stmt], rest) else none

/-! ## Statements with blocks -/

/-- The text after the line ends in front, when the next line is indented at least as far as `level`. -/
def nextLine (level : Nat) : List Lexeme → Option (List Lexeme)
  | ⟨_, .newline indent⟩ :: ts =>
    if indent < level then none else
      match ts with
      | ⟨_, .newline _⟩ :: _ => nextLine level ts
      | _ => some ts
  | _ => none

/-- Take the word of a further part of a statement that is indented by `level`. -/
def clause (level : Nat) (word : String) (ts : List Lexeme) : Option (List Lexeme) :=
  (nextLine level ts).bind (keyword word)

section Blocks

variable (block : Nat → Reader (List Node))

/-- The body of a statement that is indented by `level`, from its colon on: the rest of the line, or a
    block of lines indented further. The body may be left out. -/
def suite (level : Nat) (ts : List Lexeme) : Option (List Lexeme) := do
  let ts ← symbol ":" ts
  match peek? ts with
  | some (.newline indent) => if level < indent then (block indent ts).map Prod.snd else some ts
  | _ => (simpleLine (ts.length + 1) ts).map Prod.snd

/-- A further part of a statement that needs no head, if it is there. -/
def optionalClause (level : Nat) (word : String) (ts : List Lexeme) : Option (List Lexeme) :=
  match clause level word ts with
  | some ts => suite block level ts
  | none => some ts

/-- The parts of a choice after its first. The number bounds how many there may be. -/
def alternatives (level : Nat) : Nat → List Lexeme → Option (List Lexeme)
  | 0, _ => none
  | n + 1, ts =>
    match clause level "elif" ts with
    | some ts => do
      let (_, ts) ← expression ts
      let ts ← suite block level ts
      alternatives level n ts
    | none => optionalClause block level "else" ts

/-- What a handler handles, if it says so. -/
def handled (ts : List Lexeme) : Option (List Lexeme) :=
  let ts := (symbol "*" ts).getD ts
  if atSymbol ":" ts then some ts
  else do
    let (_, ts) ← expressionList ts
    renamed ts

/-- The handlers of a guarded block, and whether there is one. The number bounds how many there may
    be. -/
def handlers (level : Nat) : Nat → Reader Bool
  | 0, _ => none
  | n + 1, ts =>
    match clause level "except" ts with
    | some ts => do
      let ts ← handled ts
      let ts ← suite block level ts
      let (_, ts) ← handlers level n ts
      return (true, ts)
    | none => some (false, ts)

/-- One resource of a `with` statement. -/
def resource : Reader Unit := fun ts => do
  let (_, ts) ← expression ts
  match keyword "as" ts with
  | none => return ((), ts)
  | some ts =>
    let (target, ts) ← primary ts
    if target.target then return ((), ts) else none

/-- The resources of a `with` statement, which may be in parentheses. -/
def resources (ts : List Lexeme) : Option (List Lexeme) :=
  let bare := do
    let (_, ts) ← resource ts
    let (_, ts) ← repeated (symbol ",") resource ts
    if atSymbol ":" ts then some ts else none
  let inParentheses := do
    let ts ← symbol "(" ts
    let (_, ts) ← resource ts
    let (_, ts) ← repeated commaBefore resource ts
    symbol ")" (optionalComma ts)
  bare.or inParentheses

/-- A function definition, from after its first word. -/
def functionRest (level : Nat) (ts : List Lexeme) : Option (List Lexeme) := do
  let (_, ts) ← identifier ts
  let ts ← symbol "(" ts
  let ts ← parameters expression true ")" (ts.length + 1) ts
  let ts ← match symbol "->" ts with
    | some ts => (expression ts).map Prod.snd
    | none => some ts
  suite block level ts

/-- A class definition, from after its first word. -/
def classRest (level : Nat) (ts : List Lexeme) : Option (List Lexeme) := do
  let (_, ts) ← identifier ts
  let ts ← match symbol "(" ts with
    | some ts => (callBrackets expression primary ts).map Prod.snd
    | none => some ts
  suite block level ts

/-- A definition with the lines of decorations before it, from a decoration or the definition on. The
    number bounds how many decorations there may be. -/
def decorated (level : Nat) : Nat → List Lexeme → Option (List Lexeme)
  | 0, _ => none
  | n + 1, ts =>
    match symbol "@" ts with
    | some ts => do
      let (_, ts) ← expression ts
      decorated level n (← nextLine level ts)
    | none =>
      match keyword "class" ts with
      | some ts => classRest block level ts
      | none => (keyword "def" (dropAsync ts)).bind (functionRest block level)

/-- A statement with blocks in it, indented by `level`. -/
def compound (level : Nat) : Reader Node := fun ts =>
  match peek? (dropAsync ts) with
  | some (.keyword "if") => do
    let (_, ts) ← expression ts.tail
    let ts ← suite block level ts
    opaqueStatement "if_statement" (← alternatives block level ts.length ts)
  | some (.keyword "while") => do
    let (_, ts) ← expression ts.tail
    let ts ← suite block level ts
    opaqueStatement "while_statement" (← optionalClause block level "else" ts)
  | some (.keyword "for") => do
    let ts := (dropAsync ts).tail
    let (_, ts) ← loopTargets primary (ts.length + 1) ts
    let ts ← keyword "in" ts
    let (_, ts) ← expressionList ts
    let ts ← suite block level ts
    opaqueStatement "for_statement" (← optionalClause block level "else" ts)
  | some (.keyword "try") => do
    let ts ← suite block level ts.tail
    let (handles, ts) ← handlers block level ts.length ts
    let ts ← if handles then optionalClause block level "else" ts else some ts
    let finishes := (clause level "finally" ts).isSome
    let ts ← optionalClause block level "finally" ts
    if handles || finishes then opaqueStatement "try_statement" ts else none
  | some (.keyword "with") => do
    let ts ← resources (dropAsync ts).tail
    opaqueStatement "with_statement" (← suite block level ts)
  | some (.keyword "def") => do
    opaqueStatement "function_definition" (← functionRest block level (dropAsync ts).tail)
  | some (.keyword "class") => do
    opaqueStatement "class_definition" (← classRest block level ts.tail)
  | _ => do opaqueStatement "decorated_definition" (← decorated block level ts.length ts)

/-- Whether a statement with blocks in it begins here. -/
def atCompound (ts : List Lexeme) : Bool :=
  match peek? ts with
  | some (.keyword word) => ["if", "while", "for", "try", "with", "def", "class"].contains word
  | some (.name word) =>
    word == "async" && ["for", "with", "def"].any (fun w => atKeyword w ts.tail)
  | some (.symbol mark) => mark == "@"
  | _ => false

/-- The statements up to the end of the block that is indented by `level`, from a line end or a statement
    on. The end of the text is left. The number bounds how many lines there may be. -/
def lines (level : Nat) : Nat → Reader (List Node)
  | 0, _ => none
  | n + 1, ts =>
    match peek? ts with
    | some (.newline indent) => if indent < level then some ([], ts) else lines level n ts.tail
    | some .finish => some ([], ts)
    | none => none
    | _ => do
      let (stmts, rest) ← if atCompound ts then
          (compound block level ts).map (fun r => (joints ts ++ [r.1], r.2))
        else simpleLine (ts.length + 1) ts
      let (more, rest) ← lines level n rest
      return (stmts ++ more, rest)

end Blocks

/-! ## The knot -/

/-- The statements of a block that is indented by `level`; blocks are nested at most `depth` deep. -/
def blockWithin : Nat → Nat → Reader (List Node)
  | 0 => fun _ _ => none
  | depth + 1 => fun level ts => lines (blockWithin depth) level (ts.length + 1) ts

/-- The statements of a block that is indented by `level`. -/
def block (level : Nat) : Reader (List Node) := fun ts => blockWithin (ts.length + 1) level ts

/-- The statements of a file. -/
def fileStatements (ts : List Lexeme) : Option (List Node) := do
  let (stmts, rest) ← block 0 ts
  match rest with
  | [last] => if last.token = .finish then return stmts ++ joints [last] else none
  | _ => none

/-- The syntax tree of a source text. `origin` names the text in an error. -/
def parse (origin text : String) : Except Error Node :=
  match (lexemes? text.toList).bind fileStatements with
  | some stmts => .ok (.file stmts)
  | none => .error (.malformedSource origin)

end Source
end TableSpec
