import TableSpec.Proofs.Source.Lexing
import TableSpec.Proofs.Source.Parsing
import TableSpec.Source.Statement

/-!
# `Proofs.Source.RoundTrip` — printed files read back

A tree of the specification grammar is read back from its tokens as a whole expression and, unless it would
need parentheses, as an operand; both by induction on the tree, with as much depth as it has tokens. A file is
then read back line by line.

## Contents
- `unbound_tokens`, `head_ne_lambda`: how the tokens of a tree begin.
- `Readable`, `readable`: trees.
- `fileStatements_fileTokens`: files. `parse_print`: parsing inverts printing.
-/

namespace TableSpec
namespace Source

/-! ## How trees begin -/

/-- The tokens that bind no name in front of them. -/
def BindsNothing (t : Token) : Prop := t ≠ .symbol ":=" ∧ t ≠ .symbol "="

/-- What stops an expression binds no name. -/
theorem bindsNothing_of_stop {ops : List Connective} {t : Token} (h : Stop ops t) : BindsNothing t := by
  cases h <;> exact ⟨by simp, by simp⟩

/-- Behind a name at the front of a tree stand brackets, a connective, or what stands behind the tree. -/
theorem unbound_tokens {node : Node} (h : Expression node) {rest : List Lexeme}
    (hrest : ∀ l more, rest = l :: more → BindsNothing l.token) : Unbound (unjoined (tokens node) ++ rest) := by
  induction h generalizing rest with
  | call _ _ _ _ _ ihcallee _ _ =>
    rw [tokens_call, unjoined_append, List.append_assoc]
    apply ihcallee
    rintro l more heq
    cases heq
    exact ⟨by simp, by simp⟩
  | name _ =>
    rintro j id l more heq
    obtain ⟨-, hmore⟩ := List.cons.inj heq
    exact hrest l more hmore
  | str _ => rintro j id l more heq; cases heq
  | constant _ => rintro j id l more heq; cases heq
  | list _ _ => rintro j id l more heq; cases heq
  | lambda _ _ => rintro j id l more heq; cases heq
  | @chain op operands several _ ih =>
    cases operands with
    | nil => exact absurd several (by decide)
    | cons node rest' =>
      rw [tokens_chain, List.map_cons, joined, operandTokens]
      -- a chain begins with a parenthesis, or as its first operand does
      by_cases hparentheses : needsParentheses op node = true
      · rw [if_pos hparentheses]
        rintro j id l more heq
        cases heq
      · rw [if_neg hparentheses, unjoined_append, List.append_assoc]
        apply ih node List.mem_cons_self
        cases rest' with
        | nil => exact hrest
        | cons next others =>
          rintro l more heq
          cases heq
          exact ⟨by simp, by simp⟩

/-- An expression in front of what stops it is no keyword of a call, and no named expression. -/
theorem unbound_of_stops {node : Node} (h : Expression node) {ops : List Connective} {rest : List Lexeme}
    (hrest : Stops ops rest) : Unbound (unjoined (tokens node) ++ rest) := by
  apply unbound_tokens h
  rintro l more rfl
  obtain ⟨l', more', heq, hstop⟩ := hrest
  rw [(List.cons.inj heq).1]
  exact bindsNothing_of_stop hstop

/-- Only a function without a name begins with its word: as an operand it stands in parentheses. -/
theorem head_ne_lambda {node : Node} (h : Expression node) (hnode : ∀ body, node ≠ .lambda body) :
    (tokens node).head? ≠ some (.keyword "lambda") := by
  induction h with
  | @call callee args keywords callable hcallee _ _ _ ihcallee _ _ =>
    have hnotLambda : ∀ body, callee ≠ .lambda body := by
      rintro body rfl
      cases callable
    obtain ⟨t, ts, htokens, -⟩ := exists_opens hcallee
    have hhead := ihcallee hnotLambda
    rw [htokens] at hhead
    rw [tokens_call, htokens]
    exact hhead
  | name _ => simp [tokens]
  | str _ => simp [tokens]
  | constant value => cases value <;> decide
  | list _ _ => simp [tokens_list, between]
  | @lambda body _ _ => exact absurd rfl (hnode body)
  | @chain op operands several hoperands ih =>
    cases operands with
    | nil => exact absurd several (by decide)
    | cons node rest =>
      rw [tokens_chain, List.map_cons, joined, operandTokens]
      by_cases hparentheses : needsParentheses op node = true
      · rw [if_pos hparentheses]
        simp [between]
      · have hnotLambda : ∀ body, node ≠ .lambda body := by
          rintro body rfl
          exact hparentheses rfl
        obtain ⟨t, ts, htokens, -⟩ := exists_opens (hoperands node List.mem_cons_self)
        have hhead := ih node List.mem_cons_self hnotLambda
        rw [htokens] at hhead
        rw [if_neg hparentheses, htokens]
        exact hhead

/-! ## Trees that are read back -/

/-- The connectives that may follow an operand of `op` without belonging to it. -/
def following : Connective → List Connective
  | .and => [.and, .or]
  | .or => [.or]

/-- The reader of the operands of `op`, for trees that are nested at most `depth + 1` deep. -/
def operandReader (depth : Nat) : Connective → Reader Operand
  | .and => inversion (readers depth).1 (readers (depth + 1)).2
  | .or => conjunction (readers depth).1 (readers (depth + 1)).2

/-- A tree is read back: as a whole, as an operand of the connectives that it needs no parentheses for, and in
    front of the brackets of a call. -/
structure Readable (depth : Nat) (node : Node) : Prop where
  whole : Reads [] (readers (depth + 1)).1 (tokens node) node
  operand : ∀ op, needsParentheses op node = false →
    Reads (following op) (operandReader depth op) (tokens node) node
  callee : isCallable node = true → ReadsCallee (readers depth).1 (readers depth).2 (tokens node) node

section Trees

variable {depth : Nat} {node : Node}

/-- The reader of operands on one level is made of the readers of the level below. -/
theorem readers_primary (depth : Nat) :
    (readers (depth + 1)).2 = primaryWith (readers depth).1 (readers depth).2 := rfl

/-- What reads as a chain of `or`, possibly of one operand, reads as a whole. -/
theorem whole_of_disjunction (hnode : Expression node)
    (h : Reads [] (disjunction (readers depth).1 (readers (depth + 1)).2) (tokens node) node) :
    Reads [] (readers (depth + 1)).1 (tokens node) node := by
  apply level_reads _ h
  intro rest hrest
  exact unbound_of_stops hnode hrest

/-- A conjunction alone is a whole expression. -/
theorem whole_of_conjunction (hnode : Expression node)
    (h : Reads [] (conjunction (readers depth).1 (readers (depth + 1)).2) (tokens node) node) :
    Reads [] (readers (depth + 1)).1 (tokens node) node := by
  apply whole_of_disjunction hnode
  rw [disjunction_eq]
  exact joinedBy_reads (by decide) h

/-- What reads without operators reads as an operand of both connectives. -/
theorem operandReader_reads {ts : List Token} (hts : Begins ts)
    (hlambda : ts.head? ≠ some (.keyword "lambda")) (h : Reads [.and, .or] (readers (depth + 1)).2 ts node)
    (op : Connective) : Reads (following op) (operandReader depth op) ts node := by
  have hinversion : Reads [.and, .or] (operandReader depth .and) ts node := inversion_reads hts hlambda h
  cases op with
  | and => exact hinversion
  | or =>
    rw [operandReader, conjunction_eq]
    exact joinedBy_reads (by decide) (hinversion.of_subset (by decide))

/-- What is read as an operand is read as an expression: no level above adds to it. -/
theorem Readable.of_primary (hnode : Expression node) (hlambda : ∀ body, node ≠ .lambda body)
    (h : Reads [.and, .or] (readers (depth + 1)).2 (tokens node) node)
    (hcallee : isCallable node = true → ReadsCallee (readers depth).1 (readers depth).2 (tokens node) node) :
    Readable depth node := by
  have hoperand := operandReader_reads (exists_opens hnode) (head_ne_lambda hnode hlambda) h
  have hconjunction : Reads [.or] (conjunction (readers depth).1 (readers (depth + 1)).2) (tokens node) node :=
    hoperand .or
  exact ⟨whole_of_conjunction hnode (hconjunction.of_subset (by decide)), fun op _ => hoperand op, hcallee⟩

/-- What cannot be called is read when it is read as an atom. -/
theorem Readable.of_atom (hnode : Expression node) (hlambda : ∀ body, node ≠ .lambda body)
    (hcallable : isCallable node = false)
    (h : Reads [.and, .or] (atom (readers depth).1 (readers depth).2) (tokens node) node) :
    Readable depth node := by
  apply Readable.of_primary hnode hlambda
  · rw [readers_primary]
    exact primaryWith_reads h
  · intro hcallable'
    rw [hcallable] at hcallable'
    cases hcallable'

/-- What can be called is read as such. -/
theorem Readable.of_callee (hnode : Expression node) (hlambda : ∀ body, node ≠ .lambda body)
    (h : ReadsCallee (readers depth).1 (readers depth).2 (tokens node) node) : Readable depth node :=
  .of_primary hnode hlambda (reads_of_readsCallee h) (fun _ => h)

/-- A lambda is read by its keyword, and its body one level deeper. -/
theorem Readable.of_lambda {body : Node} (hbody : Expression body)
    (h : Reads [] (readers depth).1 (tokens body) body) : Readable depth (.lambda body) := by
  have hinversion : Reads [] (operandReader depth .and) (tokens (.lambda body)) (.lambda body) :=
    inversion_reads_lambda h
  refine ⟨whole_of_conjunction (.lambda hbody) ?_, ?_, ?_⟩
  · rw [conjunction_eq]
    exact joinedBy_reads (by decide) hinversion
  · intro op hop
    cases hop
  · intro hcallable
    cases hcallable

/-- A chain is read when its operands are, each by the reader of the level below its connective. -/
theorem Readable.of_chain {op : Connective} {operands : List Node} (hchain : Expression (.chain op operands))
    (several : 2 ≤ operands.length)
    (h : ∀ operand ∈ operands,
      Reads (following op) (operandReader depth op) (operandTokens op operand) operand) :
    Readable depth (.chain op operands) := by
  cases op with
  | and =>
    have hconjunction : Reads [.or] (operandReader depth .or) (tokens (.chain .and operands))
        (.chain .and operands) := by
      rw [operandReader, conjunction_eq, tokens_chain]
      exact joinedBy_reads_chain (by decide) several h
    refine ⟨whole_of_conjunction hchain (hconjunction.of_subset (by decide)), ?_, ?_⟩
    · intro op hop
      cases op with
      | and => cases hop
      | or => exact hconjunction
    · intro hcallable
      cases hcallable
  | or =>
    refine ⟨whole_of_disjunction hchain ?_, ?_, ?_⟩
    · rw [disjunction_eq, tokens_chain]
      exact joinedBy_reads_chain (by decide) several h
    · intro op hop
      cases op <;> cases hop
    · intro hcallable
      cases hcallable

/-- What stands inside of brackets is read by the readers of one level less. -/
theorem reads_nested (hnode : Expression node)
    (h : ∀ depth, (tokens node).length ≤ depth + 1 → Readable depth node)
    (hdepth : (tokens node).length ≤ depth) : Reads [] (readers depth).1 (tokens node) node := by
  obtain ⟨t, ts, htokens, -⟩ := exists_opens hnode
  have hpos : 0 < (tokens node).length := by
    rw [htokens]
    exact Nat.succ_pos _
  obtain ⟨k, rfl⟩ : ∃ k, depth = k + 1 := Nat.exists_eq_add_one.mpr (Nat.lt_of_lt_of_le hpos hdepth)
  exact (h k hdepth).whole

/-- Parentheses make an operand of every tree. -/
theorem operandTokens_reads {op : Connective} (hnode : Expression node)
    (h : ∀ depth, (tokens node).length ≤ depth + 1 → Readable depth node)
    (hdepth : (operandTokens op node).length ≤ depth + 1) :
    Reads (following op) (operandReader depth op) (operandTokens op node) node := by
  unfold operandTokens at hdepth ⊢
  by_cases hparentheses : needsParentheses op node = true
  · rw [if_pos hparentheses] at hdepth ⊢
    rw [length_between] at hdepth
    have hinner : Reads [] (readers depth).1 (tokens node) node := reads_nested hnode h (by omega)
    have hbegins : Begins (between "(" ")" (tokens node)) := ⟨_, _, rfl, .parenthesis⟩
    apply operandReader_reads hbegins (by simp [between])
    rw [readers_primary]
    exact primaryWith_reads (atom_reads_parentheses hnode hinner)
  · rw [if_neg hparentheses] at hdepth ⊢
    exact (h depth hdepth).operand op (by simpa using hparentheses)

/-- Every tree is read back, with as much depth as it has tokens. -/
theorem readable (h : Expression node) :
    ∀ depth, (tokens node).length ≤ depth + 1 → Readable depth node := by
  induction h with
  | @call callee args keywords callable hcallee hargs hnames hvalues ihcallee ihargs ihvalues =>
    intro depth hdepth
    rw [tokens_call, List.length_append, length_between] at hdepth
    -- the callee is read at the same depth, which is why it is no whole expression; the arguments are one deeper
    have hread : ReadsCallee (readers depth).1 (readers depth).2 (tokens callee) callee :=
      (ihcallee depth (by omega)).callee callable
    have harguments : ∀ a ∈ writtenArguments args keywords, (tokens a.2).length ≤ depth →
        ReadsArgument (readers depth).1 a := by
      apply forall_mem_writtenArguments
      · intro arg harg hlength
        exact readsArgument_none (hargs arg harg) (fun _ hrest => unbound_of_stops (hargs arg harg) hrest)
          (reads_nested (hargs arg harg) (ihargs arg harg) hlength)
      · intro kw hkw hlength
        exact readsArgument_some (hnames kw hkw) (reads_nested (hvalues kw hkw) (ihvalues kw hkw) hlength)
    refine .of_callee (.call callable hcallee hargs hnames hvalues) (by simp) (readsCallee_call hread ?_)
    intro a ha
    have hpart := length_le_joined (.symbol ",") (List.mem_map_of_mem (f := argumentTokens) ha)
    have hlength := length_argumentTokens a
    exact harguments a ha (by omega)
  | @name id hid =>
    intro depth _
    exact .of_callee (.name hid) (by simp) (readsCallee_name id)
  | str value =>
    intro depth _
    exact .of_atom (.str value) (by simp) rfl (atom_reads_str value)
  | constant value =>
    intro depth _
    exact .of_atom (.constant value) (by simp) rfl (atom_reads_constant value)
  | @list items hitems ih =>
    intro depth hdepth
    rw [tokens_list, length_between] at hdepth
    have hread : ∀ item ∈ items, Reads [] (readers depth).1 (tokens item) item := by
      intro item hitem
      have hpart := length_le_joined (.symbol ",") (List.mem_map_of_mem (f := tokens) hitem)
      exact reads_nested (hitems item hitem) (ih item hitem) (by omega)
    exact .of_atom (.list hitems) (by simp) rfl (atom_reads_list hitems hread)
  | @lambda body hbody ih =>
    intro depth hdepth
    have hlength : (tokens body).length + 2 ≤ depth + 1 := hdepth
    exact .of_lambda hbody (reads_nested hbody ih (by omega))
  | @chain op operands several hoperands ih =>
    intro depth hdepth
    rw [tokens_chain] at hdepth
    refine .of_chain (.chain op several hoperands) several ?_
    intro operand hoperand
    have hpart := length_le_joined (.keyword op.word) (List.mem_map_of_mem (f := operandTokens op) hoperand)
    exact operandTokens_reads (hoperands operand hoperand) (ih operand hoperand) (by omega)

end Trees

/-! ## Statements and files -/

/-- **An expression is read back from its tokens**, in front of whatever stops it. -/
theorem expression_reads {node : Node} (h : Expression node) {rest : List Lexeme} (hrest : Stops [] rest) :
    ∃ target, expression (unjoined (tokens node) ++ rest) = some (⟨node, target⟩, rest) := by
  have hdepth : (tokens node).length ≤ (unjoined (tokens node) ++ rest).length + 1 := by
    rw [List.length_append, unjoined, List.length_map]
    omega
  exact (readable h _ hdepth).whole rest hrest

/-- The tokens of a line behind a statement, and those of the lines below. -/
def lineEnd (more : List Lexeme) : List Lexeme := ⟨0, .newline 0⟩ :: more

theorem stops_lineEnd (more : List Lexeme) : Stops [] (lineEnd more) := ⟨_, _, rfl, .newline 0⟩

section Statements

variable {stmt : Node} (more : List Lexeme)

/-- An expression on a line is a statement. -/
theorem expressionStatement_reads (h : Expression stmt) :
    expressionStatement (unjoined (tokens stmt) ++ lineEnd more) = some (stmt, lineEnd more) := by
  obtain ⟨target, hread⟩ := expression_reads h (stops_lineEnd more)
  obtain ⟨t, ts, htokens, ht⟩ := exists_opens h
  rw [htokens, unjoined_cons, List.cons_append] at hread ⊢
  have hcomma : commaBefore (lineEnd more) = none := rfl
  simp [expressionStatement, ht.element, hread, repeated_none hcomma]
  rfl

/-- No statement that is an expression begins with the word of another statement. -/
theorem simpleStatement_opens {t : Token} (ht : Opens t) (ts : List Lexeme) :
    simpleStatement (⟨0, t⟩ :: ts) = expressionStatement (⟨0, t⟩ :: ts) := by
  cases ht with
  | name _ => rfl
  | str _ => rfl
  | constant value => cases value <;> rfl
  | lambda => rfl
  | parenthesis => rfl
  | bracket => rfl

/-- No expression begins like a compound statement. -/
theorem atCompound_opens {t : Token} (ht : Opens t) (ts : List Lexeme) : atCompound (⟨0, t⟩ :: ts) = false := by
  cases ht with
  | @name id hid =>
    have hasync : id ≠ "async" := fun h => hid.ordinary (h ▸ by decide)
    simp [atCompound, peek?, hasync]
  | str _ => rfl
  | constant value => cases value <;> rfl
  | lambda => rfl
  | parenthesis => rfl
  | bracket => rfl

/-- A line with one expression is one statement. -/
theorem simpleLine_reads (h : Expression stmt) (n : Nat) :
    simpleLine (n + 1) (unjoined (tokens stmt) ++ lineEnd more) = some ([stmt], lineEnd more) := by
  have hread := expressionStatement_reads more h
  obtain ⟨t, ts, htokens, ht⟩ := exists_opens h
  rw [htokens, unjoined_cons, List.cons_append] at hread ⊢
  have hsemicolon : symbol ";" (lineEnd more) = none := rfl
  have hend : atStatementEnd (lineEnd more) = true := rfl
  simp [simpleLine, simpleStatement_opens ht, hread, hsemicolon, hend, joints]

/-- A line is a statement and its end. -/
theorem lines_statement (h : Expression stmt) (block : Nat → Reader (List Node)) (n : Nat) :
    lines block 0 (n + 2) (unjoined (tokens stmt) ++ lineEnd more) =
      (lines block 0 n more).map (fun r => (stmt :: r.1, r.2)) := by
  have hread := simpleLine_reads more h (unjoined (tokens stmt) ++ lineEnd more).length
  obtain ⟨t, ts, htokens, ht⟩ := exists_opens h
  rw [htokens, unjoined_cons, List.cons_append] at hread ⊢
  have hend : lines block 0 (n + 1) (lineEnd more) = lines block 0 n more := rfl
  have hstep : lines block 0 (n + 2) (⟨0, t⟩ :: (unjoined ts ++ lineEnd more)) =
      (simpleLine ((⟨0, t⟩ :: (unjoined ts ++ lineEnd more)).length + 1)
        (⟨0, t⟩ :: (unjoined ts ++ lineEnd more))).bind
          (fun line => (lines block 0 (n + 1) line.2).bind (fun r => some (line.1 ++ r.1, r.2))) := by
    have hcompound := atCompound_opens ht (unjoined ts ++ lineEnd more)
    cases ht <;> simp [lines, peek?, hcompound]
  rw [hstep, hread, Option.bind_some, hend]
  exact Option.map_eq_bind.symm

end Statements

/-- A statement has a token and the end of its line, so that there are enough steps for all of them. -/
theorem length_le_fileTokens {statements : List Node} (h : ∀ stmt ∈ statements, Expression stmt) :
    2 * statements.length ≤ (fileTokens statements).length := by
  induction statements with
  | nil => exact Nat.le_refl 0
  | cons stmt more ih =>
    obtain ⟨hstmt, hothers⟩ := List.forall_mem_cons.mp h
    have hmore := ih hothers
    obtain ⟨t, ts, htokens, -⟩ := exists_opens hstmt
    rw [fileTokens] at hmore ⊢
    rw [List.flatMap_cons, List.length_append, htokens, List.length_append, List.length_cons, List.length_cons,
      List.length_singleton]
    omega

/-- The lines of a file, each with two of the fuel: one for its statement, one for its end. -/
theorem lines_fileTokens {statements : List Node} (h : ∀ stmt ∈ statements, Expression stmt)
    (block : Nat → Reader (List Node)) {n : Nat} (hn : 2 * statements.length < n) :
    lines block 0 n (unjoined (fileTokens statements ++ [.finish])) = some (statements, [⟨0, .finish⟩]) := by
  induction statements generalizing n with
  | nil =>
    obtain ⟨k, rfl⟩ : ∃ k, n = k + 1 := Nat.exists_eq_add_one.mpr hn
    rfl
  | cons stmt more ih =>
    rw [List.length_cons] at hn
    obtain ⟨k, rfl⟩ : ∃ k, n = k + 2 := ⟨n - 2, by omega⟩
    obtain ⟨hstmt, hothers⟩ := List.forall_mem_cons.mp h
    have hmore := @ih hothers k (by omega)
    have hline := lines_statement (unjoined (fileTokens more ++ [.finish])) hstmt block k
    have htokens : unjoined (fileTokens (stmt :: more) ++ [.finish]) =
        unjoined (tokens stmt) ++ lineEnd (unjoined (fileTokens more ++ [.finish])) := by
      rw [fileTokens, List.flatMap_cons, List.append_assoc, List.append_assoc, unjoined_append]
      rfl
    rw [htokens, hline, hmore]
    rfl

/-- A file is read as its statements. -/
theorem fileStatements_fileTokens {statements : List Node} (h : ∀ stmt ∈ statements, Expression stmt) :
    fileStatements (unjoined (fileTokens statements ++ [.finish])) = some statements := by
  have hlength := length_le_fileTokens h
  have hfuel : 2 * statements.length < (unjoined (fileTokens statements ++ [.finish])).length + 1 := by
    rw [unjoined, List.length_map, List.length_append]
    omega
  have hblock : block 0 (unjoined (fileTokens statements ++ [.finish])) = some (statements, [⟨0, .finish⟩]) :=
    lines_fileTokens h (blockWithin _) hfuel
  simp [fileStatements, hblock, joints]

/-- Parsing inverts printing: the text of any trees of the specification grammar, one on each line, is read as
    exactly those trees. -/
theorem parse_print (origin : String) {statements : List Node} (h : ∀ stmt ∈ statements, Expression stmt) :
    parse origin (print statements) = .ok (.file statements) := by
  rw [parse, lexemes?_print h, Option.bind_some, fileStatements_fileTokens h]

/-- A call of a call with every kind of argument, and chains that need parentheses beside others that do not. -/
def intricate : List Node :=
  [.call (.call (.name "table") [.str "say \"é\"\n\\\x00", .list [.list [], .constant .none]] [])
    [.lambda (.chain .or [.name "x", .lambda (.name "y")])]
    [("key", .chain .and [.chain .or [.name "a", .constant .true], .chain .and [.name "b", .str ""]]),
     ("key", .chain .or [.chain .and [.name "c", .name "_d1"], .chain .or [.name "e", .list []]])],
   .chain .or [.name "print", .lambda (.name "f"), .call (.name "g") [] []]]

theorem parse_print_intricate :
    (∀ stmt ∈ intricate, Expression stmt) ∧
      print intricate =
        "table(\"say \\\"\\xE9\\\"\\n\\\\\\x00\", [[], None])(lambda: x or (lambda: y), " ++
          "key=(a or True) and (b and \"\"), key=c and _d1 or (e or []))\n" ++
          "print or (lambda: f) or g()\n" ∧
      parse "schema.table" (print intricate) = .ok (.file intricate) := by
  have hintricate : ∀ stmt ∈ intricate, Expression stmt := by decide +kernel
  exact ⟨hintricate, by decide +kernel, parse_print "schema.table" hintricate⟩

end Source
end TableSpec
