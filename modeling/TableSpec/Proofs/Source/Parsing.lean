import TableSpec.Proofs.Source.Printer
import TableSpec.Source.Expression

/-!
# `Proofs.Source.Parsing` — printed expressions read back, level by level

Each level of the grammar is a reader that is given the readers of the levels below it and of what stands
inside brackets. So the lemmas here are given the same: if those read the printed tokens of some trees, then
this level reads the tokens that are made from them. What matters of the text behind is only which token it
begins with.

## Contents
- `Stops`: what may follow an expression. `Reads`: a reader takes the tokens of a node in front of that.
- `Opens.*`: what is not taken for the beginning of an expression.
- `inversion_reads`, `joinedBy_reads_chain`: operands and chains. `level_reads`: whole expressions.
- `collection_reads`, `bracketed_reads`, `callBrackets_reads`: brackets.
- `ReadsCallee`, `readsCallee_call`: calls, and calls of calls.
-/

namespace TableSpec
namespace Source

/-! ## What follows an expression -/

/-- The tokens that may follow an expression: the marks of brackets, line ends, and the given connectives. -/
inductive Stop (ops : List Connective) : Token → Prop where
  | comma : Stop ops (.symbol ",")
  | parenthesis : Stop ops (.symbol ")")
  | bracket : Stop ops (.symbol "]")
  | newline (indent : Nat) : Stop ops (.newline indent)
  | connective {op : Connective} (hop : op ∈ ops) : Stop ops (.keyword op.word)

/-- Tokens of which the first may follow an expression. -/
def Stops (ops : List Connective) (rest : List Lexeme) : Prop :=
  ∃ l more, rest = l :: more ∧ Stop ops l.token

/-- What stops a reader of more connectives stops one of fewer. -/
theorem Stops.mono {ops ops' : List Connective} {rest : List Lexeme} (h : Stops ops rest) (hsub : ops ⊆ ops') :
    Stops ops' rest := by
  obtain ⟨⟨j, t⟩, more, rfl, ht⟩ := h
  refine ⟨⟨j, t⟩, more, rfl, ?_⟩
  cases ht with
  | comma => exact .comma
  | parenthesis => exact .parenthesis
  | bracket => exact .bracket
  | newline indent => exact .newline indent
  | connective hop => exact .connective (hsub hop)

section Following

variable {ops : List Connective} {rest : List Lexeme}

/-- No operator stands where an expression has ended. -/
theorem oneOf_stops (h : Stops ops rest) {marks : List String} (hmarks : ∀ m ∈ [",", ")", "]"], m ∉ marks) :
    oneOf marks rest = none := by
  obtain ⟨⟨j, t⟩, more, rfl, ht⟩ := h
  cases ht with
  | comma => exact if_neg (by simpa using hmarks "," (by decide))
  | parenthesis => exact if_neg (by simpa using hmarks ")" (by decide))
  | bracket => exact if_neg (by simpa using hmarks "]" (by decide))
  | newline indent => rfl
  | connective hop => rfl

theorem symbol_stops (h : Stops ops rest) {mark : String} (hmark : mark ∉ [",", ")", "]"]) :
    symbol mark rest = none := by
  have hne : ∀ m ∈ [",", ")", "]"], ¬m = mark := fun m hm heq => hmark (heq ▸ hm)
  obtain ⟨⟨j, t⟩, more, rfl, ht⟩ := h
  cases ht with
  | comma => simp [symbol, atSymbol, peek?, hne "," (by decide)]
  | parenthesis => simp [symbol, atSymbol, peek?, hne ")" (by decide)]
  | bracket => simp [symbol, atSymbol, peek?, hne "]" (by decide)]
  | newline indent => rfl
  | connective hop => rfl

theorem keyword_stops (h : Stops ops rest) {word : String} (hword : ∀ op ∈ ops, op.word ≠ word) :
    keyword word rest = none := by
  obtain ⟨⟨j, t⟩, more, rfl, ht⟩ := h
  cases ht with
  | comma => rfl
  | parenthesis => rfl
  | bracket => rfl
  | newline indent => rfl
  | connective hop => simp [keyword, atKeyword, peek?, hword _ hop]

/-- Of all words only the connectives may follow an expression. -/
theorem otherWord_stops (h : Stops ops rest) {word : String} (hword : word ∉ ["and", "or"]) :
    keyword word rest = none := by
  apply keyword_stops h
  rintro op - rfl
  cases op <;> exact hword (by decide)

theorem atString_stops (h : Stops ops rest) : atString rest = none := by
  obtain ⟨⟨j, t⟩, more, rfl, ht⟩ := h
  cases ht <;> rfl

theorem atLoop_stops (h : Stops ops rest) : atLoop rest = false := by
  obtain ⟨⟨j, t⟩, more, rfl, ht⟩ := h
  cases ht with
  | comma => rfl
  | parenthesis => rfl
  | bracket => rfl
  | newline indent => rfl
  | @connective op hop => cases op <;> rfl

theorem comparisonOperator_stops (h : Stops ops rest) : comparisonOperator rest = none := by
  have hin : keyword "in" rest = none := otherWord_stops h (by decide)
  have hnot : keyword "not" rest = none := otherWord_stops h (by decide)
  have his : keyword "is" rest = none := otherWord_stops h (by decide)
  simp only [comparisonOperator, oneOf_stops h (by decide : ∀ m ∈ [",", ")", "]"], m ∉ comparisonMarks), hin, hnot,
    his, Option.map_none]

/-- Nothing is called where an expression has ended. -/
theorem trailers_stops (h : Stops ops rest) (nested primary : Reader Operand) (n : Nat) (a : Operand) :
    trailers nested primary (n + 1) a rest = some (a, rest) := by
  obtain ⟨⟨j, t⟩, more, rfl, ht⟩ := h
  cases ht <;> rfl

/-- What is no conditional is the operand itself. -/
theorem conditional_stops (h : Stops ops rest) (nested : Reader Operand) (a : Operand) :
    conditional nested a rest = some (a, rest) := by
  have hif : keyword "if" rest = none := otherWord_stops h (by decide)
  rw [conditional, hif]

end Following

theorem symbol_self (mark : String) (ts : List Lexeme) : symbol mark (⟨0, .symbol mark⟩ :: ts) = some ts := by
  simp [symbol, atSymbol, peek?]

theorem keyword_self (word : String) (ts : List Lexeme) :
    keyword word (⟨0, .keyword word⟩ :: ts) = some ts := by
  simp [keyword, atKeyword, peek?]

/-- Without a separator there is nothing to repeat. -/
theorem repeated_none {α : Type} {separator : List Lexeme → Option (List Lexeme)} {ts : List Lexeme}
    (h : separator ts = none) (item : Reader α) : repeated separator item ts = some ([], ts) := by
  rw [repeated, tail, h]

/-! ## How an expression begins -/

namespace Opens

variable {t : Token}

/-- Of all symbols only the opening brackets begin an expression. -/
theorem ne_symbol (ht : Opens t) {mark : String} (hmark : mark ∉ ["(", "["]) : t ≠ .symbol mark := by
  rintro rfl
  cases ht with
  | parenthesis => exact hmark (by decide)
  | bracket => exact hmark (by decide)

/-- Of all keywords only constants and `lambda` begin an expression of the grammar. -/
theorem ne_keyword (ht : Opens t) {word : String} (hword : word ∉ ["True", "False", "None", "lambda"]) :
    t ≠ .keyword word := by
  intro heq
  cases ht with
  | name _ => cases heq
  | str _ => cases heq
  | constant value =>
    cases heq
    cases value <;> exact hword (by decide)
  | lambda =>
    cases heq
    exact hword (by decide)
  | parenthesis => cases heq
  | bracket => cases heq

/-- A name that begins an expression is none of the words that are looked for by their spelling. -/
theorem ne_name (ht : Opens t) {word : String} (hword : word ∈ wordsApart) : t ≠ .name word := by
  rintro rfl
  cases ht with
  | name hid => exact hid.ordinary hword

variable (ts : List Lexeme)

theorem atSymbol (ht : Opens t) {mark : String} (hmark : mark ∉ ["(", "["]) :
    Source.atSymbol mark (⟨0, t⟩ :: ts) = false := by
  simpa [Source.atSymbol, peek?] using ht.ne_symbol hmark

theorem symbol (ht : Opens t) {mark : String} (hmark : mark ∉ ["(", "["]) :
    Source.symbol mark (⟨0, t⟩ :: ts) = none := by
  rw [Source.symbol, ht.atSymbol ts hmark]
  rfl

theorem atKeyword (ht : Opens t) {word : String} (hword : word ∉ ["True", "False", "None", "lambda"]) :
    Source.atKeyword word (⟨0, t⟩ :: ts) = false := by
  simpa [Source.atKeyword, peek?] using ht.ne_keyword hword

theorem signs (ht : Opens t) : Source.signs (⟨0, t⟩ :: ts) = ([], ⟨0, t⟩ :: ts) := by
  have hmarks : ¬(t = .symbol "-" ∨ t = .symbol "+" ∨ t = .symbol "~") := by
    rintro (h | h | h) <;> exact ht.ne_symbol (by decide) h
  have hawait : ¬(t = .name "await" ∧ atOperand ts = true) := fun h => ht.ne_name (by decide) h.1
  rw [Source.signs, if_neg hmarks, if_neg hawait]

theorem dropNots (ht : Opens t) : Source.dropNots (⟨0, t⟩ :: ts) = ⟨0, t⟩ :: ts := by
  rw [Source.dropNots, if_neg (ht.ne_keyword (by decide))]

/-- An element that begins an expression has no star in front. -/
theorem element (ht : Opens t) (nested : Reader Operand) :
    Source.element nested (⟨0, t⟩ :: ts) = nested (⟨0, t⟩ :: ts) := by
  rw [Source.element, ht.atKeyword ts (by decide), ht.atSymbol ts (by decide)]
  rfl

end Opens

/-! ## Readers of printed nodes -/

/-- The reader takes the tokens as the node, in front of whatever may follow. -/
def Reads (ops : List Connective) (reader : Reader Operand) (ts : List Token) (node : Node) : Prop :=
  ∀ rest, Stops ops rest → ∃ target, reader (unjoined ts ++ rest) = some (⟨node, target⟩, rest)

/-- Reading on in front of fewer connectives is asking for less. -/
theorem Reads.of_subset {ops ops' : List Connective} {reader : Reader Operand} {ts : List Token} {node : Node}
    (h : Reads ops' reader ts node) (hsub : ops ⊆ ops') : Reads ops reader ts node :=
  fun rest hrest => h rest (hrest.mono hsub)

/-- Tokens that begin as an expression does. -/
def Begins (ts : List Token) : Prop := ∃ t more, ts = t :: more ∧ Opens t

section Levels

variable {nested primary : Reader Operand} {ts : List Token} {node : Node}

/-- Nothing that may follow an operand makes it part of an operation. -/
theorem operand_reads (hts : Begins ts) (h : Reads [.and, .or] primary ts node) :
    Reads [.and, .or] (operand primary) ts node := by
  obtain ⟨t, more, rfl, ht⟩ := hts
  intro rest hrest
  obtain ⟨target, hread⟩ := h rest hrest
  have hpower : symbol "**" rest = none := symbol_stops hrest (by decide)
  refine ⟨target, ?_⟩
  rw [unjoined_cons, List.cons_append] at hread ⊢
  simp [operand, ht.signs, hread, repeated_none hpower]

/-- Without arithmetic operators a level gives what the level below gives. -/
theorem arithmetic_reads (hts : Begins ts) (h : Reads [.and, .or] primary ts node) :
    Reads [.and, .or] (arithmetic primary) ts node := by
  intro rest hrest
  obtain ⟨target, hread⟩ := operand_reads hts h rest hrest
  have hmarks : oneOf binaryMarks rest = none := oneOf_stops hrest (by decide)
  refine ⟨target, ?_⟩
  simp [arithmetic, hread, repeated_none hmarks]

/-- Without comparisons a level gives what the level below gives. -/
theorem comparison_reads (hts : Begins ts) (h : Reads [.and, .or] primary ts node) :
    Reads [.and, .or] (comparison primary) ts node := by
  intro rest hrest
  obtain ⟨target, hread⟩ := arithmetic_reads hts h rest hrest
  refine ⟨target, ?_⟩
  simp [comparison, hread, repeated_none (comparisonOperator_stops hrest)]

/-- Without `not` in front a level gives what the level below gives. -/
theorem inversion_reads (hts : Begins ts) (hlambda : ts.head? ≠ some (.keyword "lambda"))
    (h : Reads [.and, .or] primary ts node) : Reads [.and, .or] (inversion nested primary) ts node := by
  intro rest hrest
  obtain ⟨target, hread⟩ := comparison_reads hts h rest hrest
  obtain ⟨t, more, rfl, ht⟩ := hts
  refine ⟨target, ?_⟩
  rw [unjoined_cons, List.cons_append] at hread ⊢
  have hword : atKeyword "lambda" (⟨0, t⟩ :: (unjoined more ++ rest)) = false := by
    simpa [atKeyword, peek?] using hlambda
  have hnot := ht.atKeyword (unjoined more ++ rest) (by decide : "not" ∉ ["True", "False", "None", "lambda"])
  simp [inversion, ht.dropNots, hword, hnot, hread]

/-- A function without parameters and without a name. -/
theorem inversion_reads_lambda {body : Node} (h : Reads [] nested ts body) :
    Reads [] (inversion nested primary) (.keyword "lambda" :: .symbol ":" :: ts) (.lambda body) := by
  intro rest hrest
  obtain ⟨target, hread⟩ := h rest hrest
  refine ⟨false, ?_⟩
  have hlambda : lambda nested (⟨0, .keyword "lambda"⟩ :: ⟨0, .symbol ":"⟩ :: (unjoined ts ++ rest)) =
      some (⟨.lambda body, false⟩, rest) := by
    simp [lambda, keyword, atKeyword, peek?, parameters, symbol, atSymbol, hread]
  show inversion nested primary (⟨0, .keyword "lambda"⟩ :: ⟨0, .symbol ":"⟩ :: (unjoined ts ++ rest)) = _
  simp [inversion, dropNots, atKeyword, peek?, hlambda]

/-- Operands joined by one connective. -/
def joinedBy (op : Connective) (item : Reader Operand) : Reader Operand := fun ts => do
  let (a, ts) ← item ts
  let (more, ts) ← repeated (keyword op.word) item ts
  return (chained op a more, ts)

/-- A conjunction is a repetition like a disjunction, with another connective and another level below. -/
theorem conjunction_eq (nested primary : Reader Operand) :
    conjunction nested primary = joinedBy .and (inversion nested primary) := rfl

theorem disjunction_eq (nested primary : Reader Operand) :
    disjunction nested primary = joinedBy .or (conjunction nested primary) := rfl

end Levels

/-! ## Chains -/

theorem word_injective {op op' : Connective} (h : op.word = op'.word) : op = op' := by
  cases op with
  | and =>
    cases op' with
    | and => rfl
    | or => exact absurd h (by decide)
  | or =>
    cases op' with
    | and => exact absurd h (by decide)
    | or => rfl

theorem length_le_flatMap (mark : Token) (parts : List (List Token)) :
    parts.length ≤ (parts.flatMap (mark :: ·)).length := by
  induction parts with
  | nil => exact Nat.le_refl 0
  | cons part more ih =>
    rw [List.flatMap_cons, List.length_append, List.length_cons, List.length_cons]
    omega

/-- There are at least as many tokens left as parts. -/
theorem length_le_unjoined (mark : Token) (parts : List (List Token)) (ts : List Token) (rest : List Lexeme) :
    parts.length ≤ (unjoined (parts.flatMap (mark :: ·) ++ ts) ++ rest).length := by
  have hparts := length_le_flatMap mark parts
  rw [List.length_append, unjoined, List.length_map, List.length_append]
  omega

section Chains

variable {op : Connective} {ops : List Connective} {item : Reader Operand} {rest : List Lexeme}

/-- The chain does not go on with a connective that may not follow it. -/
theorem connective_stops (hop : op ∉ ops) (hrest : Stops ops rest) : keyword op.word rest = none := by
  apply keyword_stops hrest
  rintro op' hop' heq
  exact hop (word_injective heq ▸ hop')

/-- Behind an operand stands another connective, or what stands behind the chain. -/
theorem stops_flatMap (hrest : Stops ops rest) (parts : List (List Token)) :
    Stops (op :: ops) (unjoined (parts.flatMap (.keyword op.word :: ·)) ++ rest) := by
  cases parts with
  | nil => exact hrest.mono (List.subset_cons_self op ops)
  | cons part more => exact ⟨_, _, rfl, .connective List.mem_cons_self⟩

variable {part : Node → List Token} {nodes : List Node}

/-- Operands behind a first one are read up to the end of the chain. The induction is on the operands. -/
theorem tail_reads (hop : op ∉ ops) (h : ∀ node ∈ nodes, Reads (op :: ops) item (part node) node)
    (hrest : Stops ops rest) {n : Nat} (hn : nodes.length < n) :
    ∃ operands, operands.map Operand.node = nodes ∧
      tail (keyword op.word) item n (unjoined ((nodes.map part).flatMap (.keyword op.word :: ·)) ++ rest) =
        some (operands, rest) := by
  induction nodes generalizing n with
  | nil =>
    obtain ⟨k, rfl⟩ : ∃ k, n = k + 1 := Nat.exists_eq_add_one.mpr hn
    refine ⟨[], rfl, ?_⟩
    show tail (keyword op.word) item (k + 1) rest = _
    rw [tail, connective_stops hop hrest]
  | cons node more ih =>
    obtain ⟨k, rfl⟩ : ∃ k, n = k + 1 := Nat.exists_eq_add_one.mpr (Nat.lt_of_le_of_lt (Nat.zero_le _) hn)
    obtain ⟨hnode, hothers⟩ := List.forall_mem_cons.mp h
    obtain ⟨operands, hnodes, hmore⟩ := @ih hothers k (Nat.lt_of_succ_lt_succ hn)
    obtain ⟨target, hread⟩ := hnode _ (stops_flatMap hrest (more.map part))
    refine ⟨⟨node, target⟩ :: operands, by rw [List.map_cons, hnodes], ?_⟩
    rw [List.map_cons, List.flatMap_cons, unjoined_append, unjoined_cons, List.cons_append, List.cons_append,
      List.append_assoc]
    rw [tail, keyword_self]
    simp [hread, hmore]

/-- There are enough tokens for every operand, so that all of them are read. -/
theorem repeated_reads (hop : op ∉ ops) (h : ∀ node ∈ nodes, Reads (op :: ops) item (part node) node)
    (hrest : Stops ops rest) : ∃ operands, operands.map Operand.node = nodes ∧
      repeated (keyword op.word) item
          (unjoined ((nodes.map part).flatMap (.keyword op.word :: ·)) ++ rest) = some (operands, rest) := by
  have hlength := length_le_unjoined (.keyword op.word) (nodes.map part) [] rest
  rw [List.length_map, List.append_nil] at hlength
  exact tail_reads hop h hrest (Nat.lt_succ_of_le hlength)

/-- A single operand is no chain. -/
theorem joinedBy_reads {ts : List Token} {node : Node} (hop : op ∉ ops) (h : Reads ops item ts node) :
    Reads ops (joinedBy op item) ts node := by
  intro rest hrest
  obtain ⟨target, hread⟩ := h rest hrest
  refine ⟨target, ?_⟩
  simp [joinedBy, hread, repeated_none (connective_stops hop hrest), chained]

/-- Several operands are one chain, whatever they are themselves. -/
theorem joinedBy_reads_chain (hop : op ∉ ops) (several : 2 ≤ nodes.length)
    (h : ∀ node ∈ nodes, Reads (op :: ops) item (part node) node) :
    Reads ops (joinedBy op item) (joined (.keyword op.word) (nodes.map part)) (.chain op nodes) := by
  intro rest hrest
  cases nodes with
  | nil => exact absurd several (by decide)
  | cons node more =>
    obtain ⟨hnode, hothers⟩ := List.forall_mem_cons.mp h
    obtain ⟨operands, hnodes, hmore⟩ := repeated_reads hop hothers hrest
    obtain ⟨target, hread⟩ := hnode _ (stops_flatMap hrest (more.map part))
    have hempty : operands ≠ [] := by
      rintro rfl
      rw [← hnodes, List.map_nil] at several
      exact absurd several (by simp)
    refine ⟨false, ?_⟩
    rw [List.map_cons, joined, unjoined_append, List.append_assoc]
    simp [joinedBy, hread, hmore, chained, hempty, hnodes]

end Chains

/-! ## Whole expressions -/

/-- A name in front is not bound by what follows it. -/
def Unbound (ts : List Lexeme) : Prop :=
  ∀ j id l more, ts = ⟨j, .name id⟩ :: l :: more → l.token ≠ .symbol ":=" ∧ l.token ≠ .symbol "="

/-- What is no lambda and no conditional is read as a disjunction. -/
theorem level_reads {nested primary : Reader Operand} {ts : List Token} {node : Node}
    (hunbound : ∀ rest, Stops [] rest → Unbound (unjoined ts ++ rest))
    (h : Reads [] (disjunction nested primary) ts node) : Reads [] (level nested primary) ts node := by
  intro rest hrest
  obtain ⟨target, hread⟩ := h rest hrest
  refine ⟨target, ?_⟩
  unfold level
  split
  · rename_i heq
    exact absurd rfl (hunbound rest hrest _ _ _ _ heq).1
  · simp [hread, conditional_stops hrest]

/-! ## Brackets around elements -/

section Elements

variable {nested : Reader Operand} {close : String} {items : List Node} {node : Node}

/-- Behind an element stands a comma or the closing mark. -/
theorem stops_elements (hclose : close = ")" ∨ close = "]") (parts : List (List Token)) (rest : List Lexeme) :
    Stops [] (unjoined (parts.flatMap (.symbol "," :: ·) ++ [.symbol close]) ++ rest) := by
  cases parts with
  | nil =>
    rcases hclose with rfl | rfl
    · exact ⟨_, _, rfl, .parenthesis⟩
    · exact ⟨_, _, rfl, .bracket⟩
  | cons part more => exact ⟨_, _, rfl, .comma⟩

/-- The elements of a list behind the first one, up to the closing bracket. -/
theorem afterElement_reads (hclose : close = ")" ∨ close = "]") (hitems : ∀ item ∈ items, Expression item)
    (h : ∀ item ∈ items, Reads [] nested (tokens item) item) {n : Nat} (hn : items.length ≤ n) (a : Operand)
    (rest : List Lexeme) : ∃ target,
      afterElement close (elements nested close n) [] a
          (unjoined ((items.map tokens).flatMap (.symbol "," :: ·) ++ [.symbol close]) ++ rest) =
        some (⟨a.node :: items, target, !items.isEmpty⟩, rest) := by
  induction items generalizing n a with
  | nil =>
    refine ⟨a.target, ?_⟩
    show afterElement close _ [] a (⟨0, .symbol close⟩ :: rest) = _
    rw [afterElement, symbol_self]
    rfl
  | cons item more ih =>
    obtain ⟨k, rfl⟩ : ∃ k, n = k + 1 := Nat.exists_eq_add_one.mpr (Nat.lt_of_lt_of_le (Nat.succ_pos _) hn)
    obtain ⟨hitem, hothers⟩ := List.forall_mem_cons.mp hitems
    obtain ⟨hreads, hreadOthers⟩ := List.forall_mem_cons.mp h
    obtain ⟨itemTarget, hread⟩ := hreads _ (stops_elements hclose (more.map tokens) rest)
    obtain ⟨target, hmore⟩ := @ih hothers hreadOthers k (Nat.le_of_succ_le_succ hn) ⟨item, itemTarget⟩
    obtain ⟨t, ts, htokens, ht⟩ := exists_opens hitem
    have hnoclose : close ∉ ["(", "["] := by rcases hclose with rfl | rfl <;> decide
    have hcomma : ¬"," = close := by rcases hclose with rfl | rfl <;> decide
    refine ⟨a.target && target, ?_⟩
    rw [List.map_cons, List.flatMap_cons, List.cons_append, List.cons_append, unjoined_cons, List.cons_append,
      List.append_assoc, unjoined_append, List.append_assoc]
    rw [htokens, unjoined_cons, List.cons_append] at hread ⊢
    -- the mark is a comma, and what stands behind it is neither the closing mark nor empty
    have hsymbol : symbol close (⟨0, .symbol ","⟩ :: (⟨0, t⟩ :: (unjoined ts ++ (unjoined
        ((more.map tokens).flatMap (.symbol "," :: ·) ++ [.symbol close]) ++ rest)))) = none := by
      simp [symbol, atSymbol, peek?, hcomma]
    rw [afterElement, hsymbol, symbol_self]
    simp [elements, ht.symbol _ hnoclose, ht.element, hread, joints, hmore]

/-- The elements between two brackets. -/
theorem enclosed_reads (primary : Reader Operand) (hclose : close = ")" ∨ close = "]")
    (hitems : ∀ item ∈ items, Expression item) (h : ∀ item ∈ items, Reads [] nested (tokens item) item)
    (rest : List Lexeme) : ∃ target commas,
      enclosed nested primary close (unjoined (joined (.symbol ",") (items.map tokens) ++ [.symbol close]) ++ rest) =
        some (.elements ⟨items, target, commas⟩, rest) ∧ (items.length ≤ 1 → commas = false) := by
  cases items with
  | nil =>
    refine ⟨true, false, ?_, fun _ => rfl⟩
    show enclosed nested primary close (⟨0, .symbol close⟩ :: rest) = _
    rw [enclosed, symbol_self]
    rfl
  | cons item more =>
    obtain ⟨hitem, hothers⟩ := List.forall_mem_cons.mp hitems
    obtain ⟨hreads, hreadOthers⟩ := List.forall_mem_cons.mp h
    have hfollow := stops_elements hclose (more.map tokens) rest
    obtain ⟨itemTarget, hread⟩ := hreads _ hfollow
    have hlength := length_le_unjoined (.symbol ",") (more.map tokens) [.symbol close] rest
    rw [List.length_map] at hlength
    obtain ⟨target, hmore⟩ := afterElement_reads hclose hothers hreadOthers hlength ⟨item, itemTarget⟩ rest
    obtain ⟨t, ts, htokens, ht⟩ := exists_opens hitem
    have hnoclose : close ∉ ["(", "["] := by rcases hclose with rfl | rfl <;> decide
    refine ⟨target, !more.isEmpty, ?_, ?_⟩
    · rw [List.map_cons, joined, List.append_assoc, unjoined_append, List.append_assoc]
      rw [htokens, unjoined_cons, List.cons_append] at hread ⊢
      simp [-List.length_append, enclosed, ht.symbol _ hnoclose, ht.element, hread, loopsAfter,
        atLoop_stops hfollow, elementsFrom, joints, hmore]
    · intro hone
      cases more with
      | nil => rfl
      | cons other others => exact absurd hone (by simp)

/-- A list is read from its elements with commas between them. -/
theorem collection_reads (primary : Reader Operand) (hitems : ∀ item ∈ items, Expression item)
    (h : ∀ item ∈ items, Reads [] nested (tokens item) item) (rest : List Lexeme) : ∃ target,
      collection nested primary (unjoined (joined (.symbol ",") (items.map tokens) ++ [.symbol "]"]) ++ rest) =
        some (⟨.list items, target⟩, rest) := by
  obtain ⟨target, commas, hread, -⟩ := enclosed_reads primary (Or.inr rfl) hitems h rest
  refine ⟨target, ?_⟩
  simp [collection, hread]

/-- Parentheses around one expression leave no trace. -/
theorem bracketed_reads (primary : Reader Operand) (hnode : Expression node)
    (h : Reads [] nested (tokens node) node) (rest : List Lexeme) : ∃ target,
      bracketed nested primary (unjoined (tokens node ++ [.symbol ")"]) ++ rest) =
        some (⟨node, target⟩, rest) := by
  obtain ⟨target, commas, hread, hone⟩ := @enclosed_reads nested ")" [node] primary (Or.inl rfl)
    (by simpa using hnode) (by simpa using h) rest
  obtain ⟨t, ts, htokens, ht⟩ := exists_opens hnode
  have hcommas : commas = false := hone (Nat.le_refl 1)
  have hjoined : joined (.symbol ",") ([node].map tokens) = tokens node := by
    simp [joined]
  rw [hjoined, htokens, List.cons_append, unjoined_cons, List.cons_append] at hread
  rw [htokens, List.cons_append, unjoined_cons, List.cons_append]
  refine ⟨target, ?_⟩
  simp [bracketed, hread, hcommas, ht.atSymbol _ (by decide : "*" ∉ ["(", "["]),
    ht.atSymbol _ (by decide : ")" ∉ ["(", "["])]

end Elements

/-! ## Brackets around arguments -/

section Arguments

variable {nested : Reader Operand}

/-- The reader of arguments takes the argument, in front of whatever may follow. -/
structure ReadsArgument (nested : Reader Operand) (a : Option String × Node) : Prop where
  begins : Begins (argumentTokens a)
  reads : ∀ rest, Stops [] rest → argument nested (unjoined (argumentTokens a) ++ rest) = some (a, rest)

/-- An argument without a keyword is an expression that no sign of equality follows. -/
theorem readsArgument_none {node : Node} (hnode : Expression node)
    (hunbound : ∀ rest, Stops [] rest → Unbound (unjoined (tokens node) ++ rest))
    (h : Reads [] nested (tokens node) node) : ReadsArgument nested (none, node) where
  begins := exists_opens hnode
  reads := by
    intro rest hrest
    obtain ⟨target, hread⟩ := h rest hrest
    obtain ⟨t, ts, htokens, ht⟩ := exists_opens hnode
    have hfree := hunbound rest hrest
    rw [argumentTokens]
    rw [htokens, unjoined_cons, List.cons_append] at hread hfree ⊢
    unfold argument
    split
    · rename_i heq
      exact absurd rfl (hfree _ _ _ _ heq).2
    · simp [ht.symbol _ (by decide : "*" ∉ ["(", "["]), ht.symbol _ (by decide : "**" ∉ ["(", "["]), hread]

/-- An argument with a keyword is a name, a sign of equality and an expression. -/
theorem readsArgument_some {id : String} (hid : IsName id) {node : Node}
    (h : Reads [] nested (tokens node) node) : ReadsArgument nested (some id, node) where
  begins := ⟨_, _, rfl, .name hid⟩
  reads := by
    intro rest hrest
    obtain ⟨target, hread⟩ := h rest hrest
    show argument nested (⟨0, .name id⟩ :: ⟨0, .symbol "="⟩ :: (unjoined (tokens node) ++ rest)) = _
    simp [argument, hread]

/-- The arguments of a call, sorted into those without and those with a name. -/
def collected (as : List (Option String × Node)) : Arguments := as.foldr Arguments.cons ⟨[], []⟩

/-- Arguments that are written in order are collected into the same two lists. -/
theorem collected_written (args : List Node) (keywords : List (String × Node)) :
    collected (writtenArguments args keywords) = ⟨args, keywords⟩ := by
  have hkeywords : collected (keywords.map (fun kw => (some kw.1, kw.2))) = ⟨[], keywords⟩ := by
    induction keywords with
    | nil => rfl
    | cons kw more ih =>
      rw [collected] at ih ⊢
      rw [List.map_cons, List.foldr_cons, ih]
      rfl
  unfold collected at hkeywords ⊢
  rw [writtenArguments, List.foldr_append, hkeywords]
  induction args with
  | nil => rfl
  | cons arg more ih =>
    rw [List.map_cons, List.foldr_cons, ih]
    rfl

variable {as : List (Option String × Node)}

/-- The arguments of a call behind the first one, up to the closing bracket. -/
theorem afterArgument_reads (h : ∀ a ∈ as, ReadsArgument nested a) {n : Nat} (hn : as.length ≤ n)
    (a : Option String × Node) (rest : List Lexeme) :
    afterArgument (arguments nested n) [] a
        (unjoined ((as.map argumentTokens).flatMap (.symbol "," :: ·) ++ [.symbol ")"]) ++ rest) =
      some (Arguments.cons a (collected as), rest) := by
  induction as generalizing n a with
  | nil =>
    show afterArgument _ [] a (⟨0, .symbol ")"⟩ :: rest) = _
    rw [afterArgument, symbol_self]
    rfl
  | cons next more ih =>
    obtain ⟨k, rfl⟩ : ∃ k, n = k + 1 := Nat.exists_eq_add_one.mpr (Nat.lt_of_lt_of_le (Nat.succ_pos _) hn)
    obtain ⟨⟨hbegins, hreads⟩, hothers⟩ := List.forall_mem_cons.mp h
    have hread := hreads _ (stops_elements (Or.inl rfl) (more.map argumentTokens) rest)
    have hmore := @ih hothers k (Nat.le_of_succ_le_succ hn) next
    obtain ⟨t, ts, htokens, ht⟩ := hbegins
    rw [List.map_cons, List.flatMap_cons, List.cons_append, List.cons_append, unjoined_cons, List.cons_append,
      List.append_assoc, unjoined_append, List.append_assoc]
    rw [htokens, unjoined_cons, List.cons_append] at hread ⊢
    have hsymbol : ∀ more, symbol ")" (⟨0, .symbol ","⟩ :: more) = none := fun _ => rfl
    rw [afterArgument, hsymbol, symbol_self]
    simp [arguments, ht.symbol _ (by decide : ")" ∉ ["(", "["]), hread, joints, hmore, collected,
      Arguments.joined]

/-- The arguments of a call are read from what is written between its brackets. -/
theorem callBrackets_reads (primary : Reader Operand) (h : ∀ a ∈ as, ReadsArgument nested a)
    (rest : List Lexeme) :
    callBrackets nested primary
        (unjoined (joined (.symbol ",") (as.map argumentTokens) ++ [.symbol ")"]) ++ rest) =
      some (collected as, rest) := by
  cases as with
  | nil => rfl
  | cons a more =>
    obtain ⟨⟨hbegins, hreads⟩, hothers⟩ := List.forall_mem_cons.mp h
    have hfollow := stops_elements (Or.inl rfl) (more.map argumentTokens) rest
    have hread := hreads _ hfollow
    have hlength := length_le_unjoined (.symbol ",") (more.map argumentTokens) [.symbol ")"] rest
    rw [List.length_map] at hlength
    have hmore := afterArgument_reads hothers hlength a rest
    obtain ⟨t, ts, htokens, ht⟩ := hbegins
    rw [List.map_cons, joined, List.append_assoc, unjoined_append, List.append_assoc]
    rw [htokens, unjoined_cons, List.cons_append] at hread ⊢
    simp [-List.length_append, callBrackets, ht.symbol _ (by decide : ")" ∉ ["(", "["]),
      ht.symbol _ (by decide : "," ∉ ["(", "["]), hread, loopsAfter, atLoop_stops hfollow, joints, hmore]
    rfl

/-- A call goes on where its brackets end. -/
theorem trailers_call (primary : Reader Operand) (h : ∀ a ∈ as, ReadsArgument nested a) (n : Nat) (f : Operand)
    (rest : List Lexeme) :
    trailers nested primary (n + 1) f
        (unjoined (between "(" ")" (joined (.symbol ",") (as.map argumentTokens))) ++ rest) =
      trailers nested primary n ⟨.call f.node (collected as).args (collected as).keywords, false⟩ rest := by
  have hread := callBrackets_reads primary h rest
  rw [between, unjoined_cons, List.cons_append]
  simp [trailers, hread]

end Arguments

/-! ## Atoms and calls -/

section Atoms

variable {nested primary : Reader Operand}

theorem atom_reads_constant (value : Constant) :
    Reads [.and, .or] (atom nested primary) [.keyword value.word] (.constant value) := by
  intro rest _
  cases value <;> exact ⟨false, rfl⟩

/-- A string that no other follows is a piece of its own. -/
theorem atom_reads_str (value : String) : Reads [.and, .or] (atom nested primary) [.str value] (.str value) := by
  intro rest hrest
  refine ⟨false, ?_⟩
  show strings nested (⟨0, .str value⟩ :: rest) = _
  simp [strings, stringPiece, repeated_none (atString_stops hrest), String.join]

theorem atom_reads_list {items : List Node} (hitems : ∀ item ∈ items, Expression item)
    (h : ∀ item ∈ items, Reads [] nested (tokens item) item) :
    Reads [.and, .or] (atom nested primary) (tokens (.list items)) (.list items) := by
  intro rest _
  rw [tokens_list]
  exact collection_reads primary hitems h rest

/-- An expression in parentheses is read as the expression. -/
theorem atom_reads_parentheses {node : Node} (hnode : Expression node) (h : Reads [] nested (tokens node) node) :
    Reads [.and, .or] (atom nested primary) (between "(" ")" (tokens node)) node := by
  intro rest _
  exact bracketed_reads primary hnode h rest

/-- Nothing that may follow an operand is taken as a part of an atom. -/
theorem primaryWith_reads {ops : List Connective} {ts : List Token} {node : Node}
    (h : Reads ops (atom nested primary) ts node) : Reads ops (primaryWith nested primary) ts node := by
  intro rest hrest
  obtain ⟨target, hread⟩ := h rest hrest
  refine ⟨target, ?_⟩
  simp [primaryWith, hread, trailers_stops hrest]

/-- The reader takes the tokens as the node and then looks for brackets, with fuel for all that is left. -/
def ReadsCallee (nested primary : Reader Operand) (ts : List Token) (node : Node) : Prop :=
  ∀ rest, ∃ n target, rest.length < n ∧
    primaryWith nested primary (unjoined ts ++ rest) = trailers nested primary n ⟨node, target⟩ rest

theorem readsCallee_name (id : String) : ReadsCallee nested primary [.name id] (.name id) :=
  fun rest => ⟨rest.length + 1, true, Nat.lt_succ_self _, rfl⟩

/-- A call may be called again: its brackets are the next trailer. -/
theorem readsCallee_call {callee : Node} {args : List Node} {keywords : List (String × Node)}
    (hcallee : ReadsCallee nested primary (tokens callee) callee)
    (h : ∀ a ∈ writtenArguments args keywords, ReadsArgument nested a) :
    ReadsCallee nested primary (tokens (.call callee args keywords)) (.call callee args keywords) := by
  intro rest
  obtain ⟨n, target, hn, hread⟩ := hcallee
    (unjoined (between "(" ")" (joined (.symbol ",") ((writtenArguments args keywords).map argumentTokens))) ++ rest)
  rw [List.length_append] at hn
  have hbetween : 0 < (unjoined (between "(" ")" (joined (.symbol ",")
      ((writtenArguments args keywords).map argumentTokens)))).length := Nat.succ_pos _
  -- the brackets take one of the fuel and at least one token, so it lasts for what is left
  obtain ⟨k, rfl⟩ : ∃ k, n = k + 1 := Nat.exists_eq_add_one.mpr (by omega)
  refine ⟨k, false, by omega, ?_⟩
  rw [tokens_call, unjoined_append, List.append_assoc, hread, trailers_call primary h, collected_written]

/-- What may be called may stand alone: no trailer follows it then. -/
theorem reads_of_readsCallee {ts : List Token} {node : Node} (h : ReadsCallee nested primary ts node) :
    Reads [.and, .or] (primaryWith nested primary) ts node := by
  intro rest hrest
  obtain ⟨n, target, hn, hread⟩ := h rest
  obtain ⟨k, rfl⟩ : ∃ k, n = k + 1 := Nat.exists_eq_add_one.mpr (Nat.lt_of_le_of_lt (Nat.zero_le _) hn)
  exact ⟨target, by rw [hread, trailers_stops hrest]⟩

end Atoms

end Source
end TableSpec
