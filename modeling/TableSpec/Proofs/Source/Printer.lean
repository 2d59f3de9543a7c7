import TableSpec.Source.Node
import TableSpec.Source.Token
import TableSpec.Text.Hex

/-!
# `Proofs.Source.Printer` — specification files written out

The canonical text of the trees that the specification grammar is made of: calls, names, strings, constants,
lists, functions without a name, and chains. A tree is first written as the tokens that it consists of, with
parentheses only where the grammar would read another tree without them; then each token is spelled out.

## Contents
- `IsName`, `Expression`: the trees that can be written. `isExpression`: deciding which they are.
- `escapedChar`, `spelling`, `spell`: tokens as characters.
- `needsParentheses`, `joined`, `tokens`: trees as tokens.
- `Opens`, `exists_opens`: the tokens that an expression begins with.
- `print`: a whole file, one statement on each line.
-/

namespace TableSpec
namespace Source

/-! ## Trees that can be written -/

/-- The words that no name may be. Those of asynchronous code are read as ordinary words, but stand for
    something else in front of some others. -/
def wordsApart : List String := ["async", "await"] ++ Lexer.reserved

/-- Whether characters are a letter or an underscore and then letters, digits and underscores, all of them
    ASCII. -/
def isWord (cs : List Char) : Bool :=
  cs.head?.any (fun c => c.isAlpha || c == '_') && cs.all (fun c => c.isAlphanum || c == '_')

/-- An identifier of ASCII characters that is no keyword. -/
structure IsName (id : String) : Prop where
  word : isWord id.toList = true
  ordinary : id ∉ wordsApart

instance (id : String) : Decidable (IsName id) :=
  decidable_of_iff (isWord id.toList = true ∧ id ∉ wordsApart)
    ⟨fun h => ⟨h.1, h.2⟩, fun h => ⟨h.word, h.ordinary⟩⟩

/-- Whether a node may be called: it is a name or another call. -/
def isCallable : Node → Bool
  | .name _ | .call _ _ _ => true
  | _ => false

/-- The trees of the specification grammar: calls of names and of other calls, names, strings, constants,
    lists, functions without a name, and chains of at least two operands. -/
inductive Expression : Node → Prop where
  | call {callee : Node} {args : List Node} {keywords : List (String × Node)}
      (callable : isCallable callee = true) (hcallee : Expression callee)
      (hargs : ∀ arg ∈ args, Expression arg) (hnames : ∀ kw ∈ keywords, IsName kw.1)
      (hvalues : ∀ kw ∈ keywords, Expression kw.2) : Expression (.call callee args keywords)
  | name {id : String} (hid : IsName id) : Expression (.name id)
  | str (value : String) : Expression (.str value)
  | constant (value : Constant) : Expression (.constant value)
  | list {items : List Node} (hitems : ∀ item ∈ items, Expression item) : Expression (.list items)
  | lambda {body : Node} (hbody : Expression body) : Expression (.lambda body)
  | chain (op : Connective) {operands : List Node} (several : 2 ≤ operands.length)
      (hoperands : ∀ operand ∈ operands, Expression operand) : Expression (.chain op operands)

mutual

/-- Whether a node is a tree of the specification grammar. -/
def isExpression : Node → Bool
  | .call callee args keywords =>
    isCallable callee && isExpression callee && areExpressions args && areKeywords keywords
  | .name id => decide (IsName id)
  | .str _ | .constant _ => true
  | .list items => areExpressions items
  | .lambda body => isExpression body
  | .chain _ operands => decide (2 ≤ operands.length) && areExpressions operands
  | .file _ | .other _ => false

/-- Whether all of several nodes are trees of the specification grammar. -/
def areExpressions : List Node → Bool
  | [] => true
  | node :: rest => isExpression node && areExpressions rest

/-- Whether all of several keyword arguments can be written. -/
def areKeywords : List (String × Node) → Bool
  | [] => true
  | (id, node) :: rest => decide (IsName id) && isExpression node && areKeywords rest

end

theorem areExpressions_eq_true {nodes : List Node} :
    areExpressions nodes = true ↔ ∀ node ∈ nodes, isExpression node = true := by
  induction nodes with
  | nil => simp [areExpressions]
  | cons node rest ih => simp [areExpressions, ih]

theorem areKeywords_eq_true {keywords : List (String × Node)} :
    areKeywords keywords = true ↔ ∀ kw ∈ keywords, IsName kw.1 ∧ isExpression kw.2 = true := by
  induction keywords with
  | nil => simp [areKeywords]
  | cons kw rest ih => simp [areKeywords, ih]

/-- The test accepts every expression. -/
theorem isExpression_of_expression {node : Node} (h : Expression node) : isExpression node = true := by
  induction h with
  | call callable _ _ hnames _ ihcallee ihargs ihvalues =>
    have hargs := areExpressions_eq_true.mpr ihargs
    have hkeywords := areKeywords_eq_true.mpr (fun kw hkw => ⟨hnames kw hkw, ihvalues kw hkw⟩)
    simp [isExpression, callable, ihcallee, hargs, hkeywords]
  | name hid => simp [isExpression, hid]
  | str _ => simp [isExpression]
  | constant _ => simp [isExpression]
  | list _ ih => rw [isExpression, areExpressions_eq_true.mpr ih]
  | lambda _ ih => rw [isExpression, ih]
  | chain op several _ ih =>
    have hoperands := areExpressions_eq_true.mpr ih
    simp [isExpression, several, hoperands]

mutual

/-- What the test accepts is an expression; the recursion is that of the test, over nodes, lists and keywords. -/
theorem expression_of_isExpression : ∀ node : Node, isExpression node = true → Expression node
  | .call callee args keywords, h => by
    simp only [isExpression, Bool.and_eq_true] at h
    obtain ⟨⟨⟨callable, hcallee⟩, hargs⟩, hkeywords⟩ := h
    have hkw := expression_of_areKeywords keywords hkeywords
    exact .call callable (expression_of_isExpression callee hcallee)
      (expression_of_areExpressions args hargs) (fun kw h => (hkw kw h).1) (fun kw h => (hkw kw h).2)
  | .name id, h => .name (by simpa [isExpression] using h)
  | .str value, _ => .str value
  | .constant value, _ => .constant value
  | .list items, h => .list (expression_of_areExpressions items (by simpa [isExpression] using h))
  | .lambda body, h => .lambda (expression_of_isExpression body (by simpa [isExpression] using h))
  | .chain op operands, h => by
    simp only [isExpression, Bool.and_eq_true, decide_eq_true_eq] at h
    exact .chain op h.1 (expression_of_areExpressions operands h.2)

theorem expression_of_areExpressions : ∀ nodes : List Node, areExpressions nodes = true →
    ∀ node ∈ nodes, Expression node
  | [], _ => by simp
  | node :: rest, h => by
    simp only [areExpressions, Bool.and_eq_true] at h
    have hnode := expression_of_isExpression node h.1
    have hrest := expression_of_areExpressions rest h.2
    exact List.forall_mem_cons.mpr ⟨hnode, hrest⟩

theorem expression_of_areKeywords : ∀ keywords : List (String × Node), areKeywords keywords = true →
    ∀ kw ∈ keywords, IsName kw.1 ∧ Expression kw.2
  | [], _ => by simp
  | (id, node) :: rest, h => by
    simp only [areKeywords, Bool.and_eq_true, decide_eq_true_eq] at h
    have hnode := expression_of_isExpression node h.1.2
    have hrest := expression_of_areKeywords rest h.2
    exact List.forall_mem_cons.mpr ⟨⟨h.1.1, hnode⟩, hrest⟩

end

instance (node : Node) : Decidable (Expression node) :=
  decidable_of_iff (isExpression node = true)
    ⟨expression_of_isExpression node, isExpression_of_expression⟩

/-! ## Tokens as characters -/

/-- The escapes that are a letter, or the character itself, behind a backslash. -/
def shortEscapes : List (Char × Char) :=
  [('"', '"'), ('\\', '\\'), ('\n', 'n'), ('\t', 't'), ('\r', 'r')]

/-- A character as it is written between double quotes: quotes, backslashes, control characters and all
    characters beyond ASCII are escaped. -/
def escapedChar (c : Char) : List Char :=
  match shortEscapes.lookup c with
  | some letter => ['\\', letter]
  | none =>
    if 0x20 ≤ c.toNat ∧ c.toNat < 0x7F then [c]
    else if c.toNat < 0x100 then '\\' :: 'x' :: hexDigits 2 c.toNat
    else if c.toNat < 0x10000 then '\\' :: 'u' :: hexDigits 4 c.toNat
    else '\\' :: 'U' :: hexDigits 8 c.toNat

/-- A text between double quotes. -/
def quoted (cs : List Char) : List Char := '"' :: (cs.flatMap escapedChar ++ ['"'])

/-- The characters of a token, with the blanks that belong to it: a connective stands between blanks, and a
    blank follows a comma or a colon. -/
def spelling : Token → List Char
  | .name id => id.toList
  | .keyword word =>
    if word = Connective.and.word ∨ word = Connective.or.word then ' ' :: (word.toList ++ [' '])
    else word.toList
  | .str value => quoted value.toList
  | .symbol mark => if mark = "," ∨ mark = ":" then mark.toList ++ [' '] else mark.toList
  | .newline _ => ['\n']
  | .integer | .float | .formatOpen | .formatClose _ | .holeOpen | .holeLayout | .holeClose | .finish => []

/-- The characters of tokens, one after the other. -/
def spell (ts : List Token) : List Char := ts.flatMap spelling

/-- The text of tokens is put together from the text of each. -/
theorem spell_append (ts us : List Token) : spell (ts ++ us) = spell ts ++ spell us :=
  List.flatMap_append

theorem spell_cons (t : Token) (ts : List Token) : spell (t :: ts) = spelling t ++ spell ts := rfl

/-- Tokens without joints before them. -/
def unjoined (ts : List Token) : List Lexeme := ts.map (fun t => ⟨0, t⟩)

theorem unjoined_append (ts us : List Token) : unjoined (ts ++ us) = unjoined ts ++ unjoined us :=
  List.map_append

theorem unjoined_cons (t : Token) (ts : List Token) : unjoined (t :: ts) = ⟨0, t⟩ :: unjoined ts := rfl

/-! ## Trees as tokens -/

/-- Whether a node has to stand in parentheses as an operand of `op`: a function without a name, a chain of
    the same connective, and a chain of `or` between the operands of `and`. -/
def needsParentheses (op : Connective) : Node → Bool
  | .lambda _ => true
  | .chain inner _ => inner = op || (inner = .or && op = .and)
  | _ => false

/-- The given parts, with a mark between any two. -/
def joined (mark : Token) : List (List Token) → List Token
  | [] => []
  | part :: more => part ++ more.flatMap (mark :: ·)

/-- Tokens between two brackets. -/
def between (opening closing : String) (ts : List Token) : List Token :=
  .symbol opening :: (ts ++ [.symbol closing])

mutual

/-- The tokens of a node. -/
def tokens : Node → List Token
  | .call callee args keywords =>
    tokens callee ++ between "(" ")" (joined (.symbol ",") (tokensOfArgs args ++ tokensOfKeywords keywords))
  | .name id => [.name id]
  | .str value => [.str value]
  | .constant value => [.keyword value.word]
  | .list items => between "[" "]" (joined (.symbol ",") (tokensOfArgs items))
  | .lambda body => .keyword "lambda" :: .symbol ":" :: tokens body
  | .chain op operands => joined (.keyword op.word) (tokensOfOperands op operands)
  | .file _ | .other _ => []

/-- The tokens of each of several nodes. -/
def tokensOfArgs : List Node → List (List Token)
  | [] => []
  | node :: rest => tokens node :: tokensOfArgs rest

/-- The tokens of each of several keyword arguments. -/
def tokensOfKeywords : List (String × Node) → List (List Token)
  | [] => []
  | (id, node) :: rest => (.name id :: .symbol "=" :: tokens node) :: tokensOfKeywords rest

/-- The tokens of each operand of a chain. -/
def tokensOfOperands (op : Connective) : List Node → List (List Token)
  | [] => []
  | node :: rest =>
    (if needsParentheses op node then between "(" ")" (tokens node) else tokens node) ::
      tokensOfOperands op rest

end

/-- The tokens of an argument; a keyword argument has a name. -/
def argumentTokens : Option String × Node → List Token
  | (some id, node) => .name id :: .symbol "=" :: tokens node
  | (none, node) => tokens node

/-- The tokens of an operand of a chain. -/
def operandTokens (op : Connective) (node : Node) : List Token :=
  if needsParentheses op node then between "(" ")" (tokens node) else tokens node

/-- The arguments of a call in the order in which they are written: those with a name come last. -/
def writtenArguments (args : List Node) (keywords : List (String × Node)) : List (Option String × Node) :=
  args.map (fun node => (none, node)) ++ keywords.map (fun kw => (some kw.1, kw.2))

/-- The three mutual cases of `tokens` are maps over lists, which later proofs use instead. -/
theorem tokensOfArgs_eq (nodes : List Node) : tokensOfArgs nodes = nodes.map tokens := by
  induction nodes with
  | nil => rfl
  | cons node rest ih => rw [tokensOfArgs, ih, List.map_cons]

theorem tokensOfKeywords_eq (keywords : List (String × Node)) :
    tokensOfKeywords keywords = keywords.map (fun kw => argumentTokens (some kw.1, kw.2)) := by
  induction keywords with
  | nil => rfl
  | cons kw rest ih => rw [tokensOfKeywords, ih, List.map_cons, argumentTokens]

theorem tokensOfOperands_eq (op : Connective) (operands : List Node) :
    tokensOfOperands op operands = operands.map (operandTokens op) := by
  induction operands with
  | nil => rfl
  | cons node rest ih => rw [tokensOfOperands, ih, List.map_cons, operandTokens]

/-- A call is written as its callee and its arguments between brackets, those without keyword first. -/
theorem tokens_call (callee : Node) (args : List Node) (keywords : List (String × Node)) :
    tokens (.call callee args keywords) =
      tokens callee ++
        between "(" ")" (joined (.symbol ",") ((writtenArguments args keywords).map argumentTokens)) := by
  rw [tokens, tokensOfArgs_eq, tokensOfKeywords_eq, writtenArguments, List.map_append, List.map_map, List.map_map]
  rfl

theorem tokens_list (items : List Node) :
    tokens (.list items) = between "[" "]" (joined (.symbol ",") (items.map tokens)) := by
  rw [tokens, tokensOfArgs_eq]

/-- A chain is written as its operands with the connective between them, some of them in parentheses. -/
theorem tokens_chain (op : Connective) (operands : List Node) :
    tokens (.chain op operands) = joined (.keyword op.word) (operands.map (operandTokens op)) := by
  rw [tokens, tokensOfOperands_eq]

/-- What holds of the positional arguments and of the keyword arguments holds of the arguments as written. -/
theorem forall_mem_writtenArguments {P : Option String × Node → Prop} {args : List Node}
    {keywords : List (String × Node)} (hargs : ∀ arg ∈ args, P (none, arg))
    (hkeywords : ∀ kw ∈ keywords, P (some kw.1, kw.2)) : ∀ a ∈ writtenArguments args keywords, P a := by
  intro a ha
  rcases List.mem_append.mp ha with ha | ha
  · obtain ⟨arg, harg, rfl⟩ := List.mem_map.mp ha
    exact hargs arg harg
  · obtain ⟨kw, hkw, rfl⟩ := List.mem_map.mp ha
    exact hkeywords kw hkw

/-- A part is no longer than what it is a part of. -/
theorem length_le_joined (mark : Token) {parts : List (List Token)} {part : List Token} (h : part ∈ parts) :
    part.length ≤ (joined mark parts).length := by
  cases parts with
  | nil => cases h
  | cons first more =>
    rw [joined, List.length_append]
    rcases List.mem_cons.mp h with rfl | h
    · exact Nat.le_add_right _ _
    · obtain ⟨before, after, rfl⟩ := List.append_of_mem h
      rw [List.flatMap_append, List.flatMap_cons, List.length_append, List.length_append, List.length_cons]
      omega

theorem length_between (opening closing : String) (ts : List Token) :
    (between opening closing ts).length = ts.length + 2 := by
  rw [between, List.length_cons, List.length_append, List.length_singleton]

/-- An argument is at least as long as its value. -/
theorem length_argumentTokens (a : Option String × Node) : (tokens a.2).length ≤ (argumentTokens a).length := by
  obtain ⟨keyword, node⟩ := a
  cases keyword with
  | none => exact Nat.le_refl _
  | some id => exact Nat.le_add_right _ 2

/-! ## First tokens -/

/-- The tokens that an expression may begin with. -/
inductive Opens : Token → Prop where
  | name {id : String} (hid : IsName id) : Opens (.name id)
  | str (value : String) : Opens (.str value)
  | constant (value : Constant) : Opens (.keyword value.word)
  | lambda : Opens (.keyword "lambda")
  | parenthesis : Opens (.symbol "(")
  | bracket : Opens (.symbol "[")

/-- An expression begins with a token that opens one. -/
theorem exists_opens {node : Node} (h : Expression node) : ∃ t ts, tokens node = t :: ts ∧ Opens t := by
  induction h with
  | call _ _ _ _ _ ihcallee _ _ =>
    obtain ⟨t, ts, heq, ht⟩ := ihcallee
    rw [tokens_call, heq]
    exact ⟨t, _, rfl, ht⟩
  | name hid => exact ⟨_, _, rfl, .name hid⟩
  | str value => exact ⟨_, _, rfl, .str value⟩
  | constant value => exact ⟨_, _, rfl, .constant value⟩
  | list _ _ => exact ⟨_, _, rfl, .bracket⟩
  | lambda _ _ => exact ⟨_, _, rfl, .lambda⟩
  | @chain op operands several _ ih =>
    cases operands with
    | nil => exact absurd several (by decide)
    | cons node rest =>
      obtain ⟨t, ts, heq, ht⟩ := ih node List.mem_cons_self
      rw [tokens_chain, List.map_cons, joined, operandTokens]
      by_cases hparentheses : needsParentheses op node = true
      · rw [if_pos hparentheses]
        exact ⟨_, _, rfl, .parenthesis⟩
      · rw [if_neg hparentheses, heq]
        exact ⟨t, _, rfl, ht⟩

/-! ## Files -/

/-- The tokens of a file, one statement on each line. -/
def fileTokens (statements : List Node) : List Token :=
  statements.flatMap (fun stmt => tokens stmt ++ [.newline 0])

/-- The text of a file, one statement on each line. -/
def print (statements : List Node) : String := String.ofList (spell (fileTokens statements))

end Source
end TableSpec
