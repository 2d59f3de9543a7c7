import TableSpec.Sql.Statement

/-!
# `Proofs.Sql.Statement` — written statements read back

A statement is written with quotes around every name, so that whatever a name holds, a quote or a comma or the word
`FROM`, it is one token. `Lexes` says which tokens a text is read as, from its end to its front: a word in front of
a text that does not go on with the word, a name in front of a text that does not go on with its quote.

## Contents
- `Lexes`, `Ended`: texts and their tokens, with one lemma for each kind of token. `lexes_commaList`: lists.
- `lexes_createTable`, `lexes_rowCount`, `lexes_allColumns`: the tokens of written statements.
- `keyword_of_fold`, `commaItems_commaTokens`: readers of tokens. `ofTokens?_createTable`, `ofTokens?_rowCount`,
  `ofTokens?_allColumns`: the statements that these tokens make.
- `Sound`: texts without the character that would end them. `ofText?_createTable`, `ofText?_rowCount`,
  `ofText?_allColumns`.
-/

namespace TableSpec
namespace Sql

/-! ## Texts and their tokens -/

/-- A text is read as these tokens. Every number is large enough that is not below its length. -/
def Lexes (cs : List Char) (ts : List Token) : Prop := ∀ n, cs.length ≤ n → readTokens n cs = some ts

/-- The characters that are passed over between tokens. -/
def isBlank (c : Char) : Bool := c = ' ' || c = '\n' || c = '\t' || c = '\r' || c = '\x0c'

/-- Text that may follow any token: it goes on neither with a word nor with a quote. -/
def Ended (rest : List Char) : Prop :=
  ∀ c, rest.head? = some c → isWordPart c = false ∧ c ≠ '\'' ∧ c ≠ '"'

theorem ended_nil : Ended [] := fun _ h => absurd h (by simp)

/-- A word, a text and a name all end before such a character. -/
theorem ended_cons {c : Char} (hpart : isWordPart c = false) (htext : c ≠ '\'') (hname : c ≠ '"')
    (cs : List Char) : Ended (c :: cs) := by
  intro d hd
  obtain rfl : c = d := by simpa using hd
  exact ⟨hpart, htext, hname⟩

theorem ended_blank (cs : List Char) : Ended (' ' :: cs) := ended_cons (by decide) (by decide) (by decide) cs

variable {cs rest : List Char} {ts : List Token}

/-- A name ends where no second quote follows. -/
theorem Ended.closed (h : Ended rest) : Closed '"' rest := fun hquote => (h '"' hquote).2.2 rfl

theorem lexes_nil : Lexes [] [] := by
  intro n _
  rw [readTokens]

namespace Lexes

/-- A blank in front leaves no token. -/
theorem blank (h : Lexes rest ts) : Lexes (' ' :: rest) ts := by
  intro n hn
  cases n with
  | zero => exact absurd hn (by simp)
  | succ n =>
    rw [readTokens, if_pos (by decide)]
    exact h n (by simpa using hn)

/-- A token in front, which leaves no more than there was. -/
theorem token {c : Char} {token : Token} (h : Lexes rest ts) (hblank : isBlank c = false)
    (hread : readToken c cs = some (token, rest)) (hrest : rest.length ≤ cs.length) :
    Lexes (c :: cs) (token :: ts) := by
  intro n hn
  cases n with
  | zero => exact absurd hn (by simp)
  | succ n =>
    unfold isBlank at hblank
    rw [readTokens, hblank, if_neg (by simp), hread]
    have hn : cs.length ≤ n := by simpa using hn
    show (readTokens n rest).bind _ = _
    rw [h n (by omega)]
    rfl

/-- A mark that is no part of a number. -/
theorem mark {c : Char} (hc : c ∈ ['(', ')', ',', '*']) (h : Lexes rest ts) :
    Lexes (c :: rest) (.mark c :: ts) := by
  simp only [List.mem_cons, List.not_mem_nil, or_false] at hc
  refine h.token ?_ ?_ (Nat.le_refl _)
  · rcases hc with rfl | rfl | rfl | rfl <;> rfl
  · rcases hc with rfl | rfl | rfl | rfl <;> rfl

/-- A name with its quotes, whatever it holds. -/
theorem name {s : String} (hrest : Ended rest) (h : Lexes rest ts) :
    Lexes (nameChars s ++ rest) (.name s :: ts) := by
  have hread := readQuoted_append hrest.closed s.toList
  have hchars : nameChars s ++ rest = '"' :: (s.toList.flatMap (doubled '"') ++ '"' :: rest) := by
    simp [nameChars, quoted]
  rw [hchars]
  refine h.token (by decide) ?_ ?_
  · rw [readToken, if_pos rfl, hread]
    simp
  · simp only [List.length_append, List.length_cons]
    omega

end Lexes

/-! ### Words -/

/-- Whether characters make one word. -/
def isWord (cs : List Char) : Bool := cs.head?.any isWordStart && cs.all isWordPart

theorem isWordStart_ofNat_digit : ∀ n, n < 58 → 48 ≤ n → isWordStart (Char.ofNat n) = false := by
  decide

/-- A word begins with none of the characters that other tokens begin with. -/
theorem other_of_isWordStart {c : Char} (h : isWordStart c = true) :
    isBlank c = false ∧ c ≠ '"' ∧ c ≠ '\'' ∧ c ≠ '.' ∧ c.isDigit = false := by
  have hdigit : c.isDigit = false := by
    cases hc : c.isDigit with
    | false => rfl
    | true =>
      change (decide (c.val ≥ '0'.val) && decide (c.val ≤ '9'.val)) = true at hc
      simp only [Bool.and_eq_true, decide_eq_true_eq, UInt32.le_iff_toNat_le, ge_iff_le] at hc
      have hcode : c.toNat = c.val.toNat := rfl
      have hzero : '0'.val.toNat = 48 := rfl
      have hnine : '9'.val.toNat = 57 := rfl
      have hnot := isWordStart_ofNat_digit c.toNat (by omega) (by omega)
      rw [Char.ofNat_toNat, h] at hnot
      cases hnot
  have hne : ∀ d : Char, isWordStart d = false → c ≠ d := by
    rintro d hd rfl
    rw [h] at hd
    cases hd
  refine ⟨?_, hne _ (by decide), hne _ (by decide), hne _ (by decide), hdigit⟩
  unfold isBlank
  simp [hne ' ' (by decide), hne '\n' (by decide), hne '\t' (by decide), hne '\r' (by decide),
    hne '\x0c' (by decide)]

/-- A word in front of a text that does not go on with it. -/
theorem Lexes.word {w : String} (hw : isWord w.toList = true) (hrest : Ended rest) (h : Lexes rest ts) :
    Lexes (w.toList ++ rest) (.word w :: ts) := by
  obtain ⟨c, tail, hchars⟩ : ∃ c tail, w.toList = c :: tail := by
    cases hchars : w.toList with
    | nil =>
      rw [hchars] at hw
      cases hw
    | cons c tail => exact ⟨c, tail, rfl⟩
  rw [hchars] at hw ⊢
  simp only [isWord, List.head?_cons, Option.any_some, List.all_cons, Bool.and_eq_true] at hw
  obtain ⟨hstart, -, htail⟩ := hw
  obtain ⟨hblank, hname, htext, hpoint, hdigit⟩ := other_of_isWordStart hstart
  have htake : (tail ++ rest).takeWhile isWordPart = tail ∧ (tail ++ rest).dropWhile isWordPart = rest := by
    rw [List.takeWhile_append_of_pos (List.all_eq_true.mp htail),
      List.dropWhile_append_of_pos (List.all_eq_true.mp htail)]
    cases rest with
    | nil => simp
    | cons d rest =>
      have hd : isWordPart d = false := (hrest d rfl).1
      simp [hd]
  -- the first character is not one that would make bytes of what follows
  have hhead : (tail ++ rest).head? ≠ some '\'' := by
    cases tail with
    | nil => exact fun hquote => (hrest '\'' hquote).2.1 rfl
    | cons d tail =>
      rw [List.all_cons, Bool.and_eq_true] at htail
      rw [List.cons_append, List.head?_cons]
      rintro ⟨⟩
      exact absurd htail.1 (by decide)
  refine h.token hblank ?_ ?_
  · show readToken c (tail ++ rest) = _
    rw [readToken, if_neg hname, if_neg htext, if_neg (by simpa using fun _ => hhead),
      if_neg (by simp [hdigit, hpoint]), if_pos hstart, htake.1, htake.2, ← hchars, String.ofList_toList]
  · show rest.length ≤ (tail ++ rest).length
    rw [List.length_append]
    omega

/-! ### Lists -/

/-- Tokens with a comma between them. -/
def commaTokens (tokens : List (List Token)) : List Token := List.intercalate [.mark ','] tokens

/-- A list is read item by item. -/
theorem lexes_commaList {ι : Type} {text : ι → List Char} {tokens : ι → List Token} {items : List ι}
    (hitem : ∀ i ∈ items, ∀ {rest : List Char} {ts : List Token}, Ended rest → Lexes rest ts →
      Lexes (text i ++ rest) (tokens i ++ ts))
    (hrest : Ended rest) (h : Lexes rest ts) :
    Lexes (commaList (items.map text) ++ rest) (commaTokens (items.map tokens) ++ ts) := by
  unfold commaList commaTokens
  induction items with
  | nil => exact h
  | cons first items ih =>
    cases items with
    | nil =>
      rw [List.map_singleton, List.intercalate_singleton, List.map_singleton, List.intercalate_singleton]
      exact hitem first List.mem_cons_self hrest h
    | cons second items =>
      have hmore := ih (fun i hi => hitem i (List.mem_cons_of_mem first hi))
      rw [List.map_cons, List.map_cons, List.intercalate_cons_cons, List.map_cons, List.map_cons,
        List.intercalate_cons_cons, List.append_assoc, List.append_assoc, List.append_assoc, List.append_assoc]
      exact hitem first List.mem_cons_self (ended_cons (by decide) (by decide) (by decide) _)
        (hmore.blank.mark (by decide))

/-! ## Written statements -/

/-- The tokens of a column of a table that is created. -/
def ColumnDef.tokens (c : ColumnDef) : List Token :=
  .name c.name :: .word c.declaration :: if c.nullable then [] else [.word "NOT", .word "NULL"]

/-- The definition of a column is read as its name, its type and, where it may not be null, two more words. -/
theorem ColumnDef.lexes {c : ColumnDef} (hc : isWord c.declaration.toList = true) (hrest : Ended rest)
    (h : Lexes rest ts) : Lexes (c.chars ++ rest) (c.tokens ++ ts) := by
  unfold chars tokens
  rw [List.append_assoc, List.cons_append, List.append_assoc]
  refine .name (ended_blank _) (Lexes.blank ?_)
  cases c.nullable with
  | true => exact .word hc hrest h
  | false =>
    have hnull : Lexes ("NULL".toList ++ rest) (.word "NULL" :: ts) := .word (by decide) hrest h
    have hnot : Lexes ("NOT".toList ++ ' ' :: ("NULL".toList ++ rest)) (.word "NOT" :: .word "NULL" :: ts) :=
      .word (by decide) (ended_blank _) hnull.blank
    exact .word hc (ended_blank _) hnot.blank

/-- The tokens of a statement that creates a table. -/
def createTokens (name : String) (columns : List ColumnDef) : List Token :=
  .word "CREATE" :: .word "TABLE" :: .name name :: .mark '(' ::
    (commaTokens (columns.map ColumnDef.tokens) ++ [.mark ')'])

/-- The statement that creates a table is read as its tokens, if the types of its columns are words. -/
theorem lexes_createTable {name : String} {columns : List ColumnDef}
    (hcolumns : ∀ c ∈ columns, isWord c.declaration.toList = true) :
    Lexes (Statement.createTable name columns).chars (createTokens name columns) := by
  have hchars : (Statement.createTable name columns).chars = "CREATE".toList ++ ' ' :: ("TABLE".toList ++ ' ' ::
      (nameChars name ++ ' ' :: '(' :: (commaList (columns.map ColumnDef.chars) ++ [')']))) := by
    show "CREATE".toList ++ ' ' :: ("TABLE".toList ++ [' ']) ++ nameChars name ++ [' ', '('] ++
      commaList (columns.map ColumnDef.chars) ++ [')'] = _
    simp only [List.append_assoc, List.cons_append, List.nil_append]
  rw [hchars]
  have hend : Ended [')'] := ended_cons (by decide) (by decide) (by decide) []
  refine Lexes.word (w := "CREATE") (by decide) (ended_blank _) (Lexes.blank ?_)
  refine Lexes.word (w := "TABLE") (by decide) (ended_blank _) (Lexes.blank ?_)
  refine .name (ended_blank _) (Lexes.blank (Lexes.mark (by decide) ?_))
  exact lexes_commaList (fun c hc => ColumnDef.lexes (hcolumns c hc)) hend (lexes_nil.mark (by decide))

/-- The query for the number of rows is read as its tokens. -/
theorem lexes_rowCount (table : String) : Lexes (Statement.rowCount table).chars
    [.word "SELECT", .word "count", .mark '(', .mark '*', .mark ')', .word "AS", .word "n", .word "FROM",
      .name table] := by
  have hchars : (Statement.rowCount table).chars = "SELECT".toList ++ ' ' :: ("count".toList ++ '(' :: '*' ::
      ')' :: ' ' :: ("AS".toList ++ ' ' :: ("n".toList ++ ' ' :: ("FROM".toList ++ ' ' ::
        (nameChars table ++ []))))) := by
    rw [List.append_nil]
    rfl
  rw [hchars]
  refine Lexes.word (w := "SELECT") (by decide) (ended_blank _) (Lexes.blank ?_)
  refine Lexes.word (w := "count") (by decide) (ended_cons (by decide) (by decide) (by decide) _) ?_
  refine .mark (by decide) (.mark (by decide) (.mark (by decide) (Lexes.blank ?_)))
  refine Lexes.word (w := "AS") (by decide) (ended_blank _) (Lexes.blank ?_)
  refine Lexes.word (w := "n") (by decide) (ended_blank _) (Lexes.blank ?_)
  refine Lexes.word (w := "FROM") (by decide) (ended_blank _) (Lexes.blank ?_)
  exact .name ended_nil lexes_nil

/-- The query for all columns is read as its tokens. -/
theorem lexes_allColumns (table : String) : Lexes (Statement.allColumns table).chars
    [.word "SELECT", .mark '*', .word "FROM", .name table] := by
  have hchars : (Statement.allColumns table).chars = "SELECT".toList ++ ' ' :: '*' :: ' ' :: ("FROM".toList ++
      ' ' :: (nameChars table ++ [])) := by
    rw [List.append_nil]
    rfl
  rw [hchars]
  refine Lexes.word (w := "SELECT") (by decide) (ended_blank _) (Lexes.blank (Lexes.mark (by decide) (Lexes.blank ?_)))
  refine Lexes.word (w := "FROM") (by decide) (ended_blank _) (Lexes.blank ?_)
  exact .name ended_nil lexes_nil

/-! ## Readers -/

/-- A keyword is known in any case. -/
theorem keyword_of_fold {s word : String} (h : fold s = word) (ts : List Token) :
    keyword word (.word s :: ts) = some ts := by
  rw [keyword, if_pos h]

theorem keyword_of_fold_ne {s word : String} (h : fold s ≠ word) (ts : List Token) :
    keyword word (.word s :: ts) = none := by
  rw [keyword, if_neg h]

theorem keywords_nil (ts : List Token) : keywords [] ts = some ts := rfl

theorem keywords_cons_of_some {word : String} {words : List String} {after : List Token}
    (h : keyword word ts = some after) : keywords (word :: words) ts = keywords words after := by
  unfold keywords
  rw [List.foldl_cons, Option.bind_some, h]

/-- Keywords are looked for in order, so that the first one that is missing decides. -/
theorem keywords_cons_of_none {word : String} {words : List String} (h : keyword word ts = none) :
    keywords (word :: words) ts = none := by
  have hnone : ∀ more : List String, more.foldl (fun ts word => ts.bind (keyword word)) none = none := by
    intro more
    induction more with
    | nil => rfl
    | cons next more ih => exact ih
  unfold keywords
  rw [List.foldl_cons, Option.bind_some, h]
  exact hnone words

/-- A column is read from its tokens in front of a mark. -/
theorem readColumnDef_tokens (c : ColumnDef) (m : Char) (ts : List Token) :
    readColumnDef (c.tokens ++ .mark m :: ts) = some (c, .mark m :: ts) := by
  obtain ⟨name, declaration, nullable⟩ := c
  cases nullable with
  | true =>
    have hnone : keywords ["not", "null"] (.mark m :: ts) = none := keywords_cons_of_none rfl
    simp [ColumnDef.tokens, readColumnDef, readName, hnone]
  | false =>
    have hsome : keywords ["not", "null"] (.word "NOT" :: .word "NULL" :: .mark m :: ts) = some (.mark m :: ts) := by
      rw [keywords_cons_of_some (keyword_of_fold (by decide +kernel) _),
        keywords_cons_of_some (keyword_of_fold (by decide +kernel) _), keywords_nil]
    simp [ColumnDef.tokens, readColumnDef, readName, hsome]

/-- Items with commas between them are read in front of a closing bracket, one by one. -/
theorem commaItems_commaTokens {α : Type} {item : List Token → Option (α × List Token)}
    {tokens : α → List Token}
    (hitem : ∀ a m ts, item (tokens a ++ .mark m :: ts) = some (a, .mark m :: ts)) (first : α) (more : List α)
    {n : Nat} (hn : more.length < n) :
    commaItems item n (commaTokens ((first :: more).map tokens) ++ .mark ')' :: ts) =
      some (first :: more, .mark ')' :: ts) := by
  unfold commaTokens
  induction more generalizing first n with
  | nil =>
    cases n with
    | zero => exact absurd hn (Nat.not_lt_zero _)
    | succ n =>
      rw [List.map_singleton, List.intercalate_singleton, commaItems, hitem]
      rfl
  | cons second more ih =>
    cases n with
    | zero => exact absurd hn (Nat.not_lt_zero _)
    | succ n =>
      have hmore := ih second (n := n) (by simpa using hn)
      rw [List.map_cons, List.map_cons, List.intercalate_cons_cons, List.append_assoc, List.append_assoc,
        commaItems, List.singleton_append, hitem]
      show (commaItems item n _).bind _ = _
      rw [← List.map_cons, hmore]
      rfl

/-- Items with commas between them have at least as many tokens as there are items, but for one. -/
theorem length_commaTokens {α : Type} {tokens : α → List Token} (items : List α) :
    items.length ≤ (commaTokens (items.map tokens)).length + 1 := by
  unfold commaTokens
  induction items with
  | nil => exact Nat.zero_le _
  | cons first items ih =>
    cases items with
    | nil => exact Nat.le_add_left 1 _
    | cons second items =>
      rw [List.map_cons, List.map_cons, List.intercalate_cons_cons, ← List.map_cons]
      simp only [List.length_append, List.length_cons, List.length_nil] at ih ⊢
      omega

/-- The tokens in a bracket are enough to read all items in it. -/
theorem commaItems_bracket {α : Type} {item : List Token → Option (α × List Token)} {tokens : α → List Token}
    (hitem : ∀ a m ts, item (tokens a ++ .mark m :: ts) = some (a, .mark m :: ts)) (first : α) (more : List α) :
    commaItems item ((commaTokens ((first :: more).map tokens) ++ [Token.mark ')']).length + 1)
      (commaTokens ((first :: more).map tokens) ++ [.mark ')']) = some (first :: more, [.mark ')']) := by
  have hlength := @length_commaTokens α tokens (first :: more)
  apply commaItems_commaTokens hitem
  rw [List.length_append]
  rw [List.length_cons] at hlength
  omega

/-- A statement that creates a table with columns is read from its tokens. -/
theorem readCreate_tokens (name : String) {columns : List ColumnDef} (hne : columns ≠ []) :
    readCreate (createTokens name columns) = some (.createTable name columns, []) := by
  obtain ⟨first, more, rfl⟩ := List.exists_cons_of_ne_nil hne
  have hitems := commaItems_bracket readColumnDef_tokens first more
  have hwords : keywords ["create", "table"] (createTokens name (first :: more)) = some (.name name :: .mark '(' ::
      (commaTokens ((first :: more).map ColumnDef.tokens) ++ [.mark ')'])) := by
    unfold createTokens
    rw [keywords_cons_of_some (keyword_of_fold (by decide +kernel) _),
      keywords_cons_of_some (keyword_of_fold (by decide +kernel) _), keywords_nil]
  rw [readCreate, hwords]
  simp only [Option.bind_eq_bind, Option.bind_some, readName, mark, if_true, hitems]
  rfl

/-! ### Queries -/

theorem fold_select : fold "SELECT" = "select" := by decide +kernel

theorem fold_from : fold "FROM" = "from" := by decide +kernel

/-- A query is no statement that creates a table. -/
theorem readCreate_of_select (ts : List Token) : readCreate (.word "SELECT" :: ts) = none := by
  have hne : fold "SELECT" ≠ "create" := by decide +kernel
  have hwords : keywords ["create", "table"] (.word "SELECT" :: ts) = none :=
    keywords_cons_of_none (keyword_of_fold_ne hne ts)
  rw [readCreate, hwords]
  rfl

/-- A query that does not go on with `name` is none for the columns of a table. -/
theorem readColumnInfo_of_select (h : keyword "name" ts = none) : readColumnInfo (.word "SELECT" :: ts) = none := by
  have hwords : keywords ["select", "name"] (.word "SELECT" :: ts) = none := by
    rw [keywords_cons_of_some (keyword_of_fold fold_select ts), keywords_cons_of_none h]
  rw [readColumnInfo, hwords]
  rfl

/-- A query that does not go on with `count` is none for the number of rows. -/
theorem readRowCount_of_select (h : keyword "count" ts = none) : readRowCount (.word "SELECT" :: ts) = none := by
  have hwords : keywords ["select", "count"] (.word "SELECT" :: ts) = none := by
    rw [keywords_cons_of_some (keyword_of_fold fold_select ts), keywords_cons_of_none h]
  rw [readRowCount, hwords]
  rfl

/-- The query for the number of rows is read from its tokens. -/
theorem readRowCount_tokens (table : String) :
    readRowCount [.word "SELECT", .word "count", .mark '(', .mark '*', .mark ')', .word "AS", .word "n",
      .word "FROM", .name table] = some (.rowCount table, []) := by
  have hcount : fold "count" = "count" := by decide +kernel
  have has : fold "AS" = "as" := by decide +kernel
  have hn : fold "n" = "n" := by decide +kernel
  have hstart : ∀ ts, keywords ["select", "count"] (.word "SELECT" :: .word "count" :: ts) = some ts := by
    intro ts
    rw [keywords_cons_of_some (keyword_of_fold fold_select _), keywords_cons_of_some (keyword_of_fold hcount _),
      keywords_nil]
  have hlabel : keywords ["as", "n", "from"] [.word "AS", .word "n", .word "FROM", .name table] =
      some [.name table] := by
    rw [keywords_cons_of_some (keyword_of_fold has _), keywords_cons_of_some (keyword_of_fold hn _),
      keywords_cons_of_some (keyword_of_fold fold_from _), keywords_nil]
  rw [readRowCount, hstart]
  show (keywords ["as", "n", "from"] _).bind _ = _
  rw [hlabel]
  rfl

/-- The query for all columns is read from its tokens. -/
theorem readAllColumns_tokens (table : String) :
    readAllColumns [.word "SELECT", .mark '*', .word "FROM", .name table] = some (.allColumns table, []) := by
  rw [readAllColumns, keyword_of_fold fold_select]
  show (keyword "from" [.word "FROM", .name table]).bind _ = _
  rw [keyword_of_fold fold_from]
  rfl

/-! ## Statements -/

/-- No other form of statement has the tokens of one that creates a table. -/
theorem ofTokens?_createTable (name : String) {columns : List ColumnDef} (hne : columns ≠ []) :
    ofTokens? (createTokens name columns) = some (.createTable name columns) := by
  rw [ofTokens?, List.findSome?_cons, readCreate_tokens name hne]
  rfl

/-- The forms before it in the order of trial do not have the tokens of this query. -/
theorem ofTokens?_rowCount (table : String) :
    ofTokens? [.word "SELECT", .word "count", .mark '(', .mark '*', .mark ')', .word "AS", .word "n",
      .word "FROM", .name table] = some (.rowCount table) := by
  have hname : fold "count" ≠ "name" := by decide +kernel
  rw [ofTokens?, List.findSome?_cons, readCreate_of_select, Option.bind_none, List.findSome?_cons,
    readColumnInfo_of_select (keyword_of_fold_ne hname _), Option.bind_none, List.findSome?_cons,
    readRowCount_tokens]
  rfl

/-- Nor do the forms before this one. -/
theorem ofTokens?_allColumns (table : String) :
    ofTokens? [.word "SELECT", .mark '*', .word "FROM", .name table] = some (.allColumns table) := by
  rw [ofTokens?, List.findSome?_cons, readCreate_of_select, Option.bind_none, List.findSome?_cons,
    readColumnInfo_of_select rfl, Option.bind_none, List.findSome?_cons, readRowCount_of_select rfl,
    Option.bind_none, List.findSome?_cons, readAllColumns_tokens]
  rfl

/-! ## Texts -/

/-- Characters among which there is none with code 0, which would end a statement wherever it stands. -/
def Sound (cs : List Char) : Prop := ∀ c ∈ cs, c.toNat ≠ 0

instance (cs : List Char) : Decidable (Sound cs) := List.decidableBAll (fun c : Char => c.toNat ≠ 0) cs

theorem Sound.append {cs ds : List Char} (h : Sound cs) (h' : Sound ds) : Sound (cs ++ ds) := by
  intro c hc
  rcases List.mem_append.mp hc with hc | hc
  · exact h c hc
  · exact h' c hc

/-- A name is sound between its quotes when it is without them: only quotes are written twice. -/
theorem sound_nameChars {s : String} (h : Sound s.toList) : Sound (nameChars s) := by
  have hquote : Sound ['"'] := by decide
  refine hquote.append (Sound.append ?_ hquote)
  intro c hc
  obtain ⟨d, hd, hc⟩ := List.mem_flatMap.mp hc
  unfold doubled at hc
  split at hc
  · obtain rfl : c = '"' := by simpa using hc
    decide
  · obtain rfl : c = d := by simpa using hc
    exact h c hd

/-- Words are sound. -/
theorem sound_of_isWord {w : String} (hw : isWord w.toList = true) : Sound w.toList := by
  simp only [isWord, Bool.and_eq_true] at hw
  intro c hc hzero
  have hpart := List.all_eq_true.mp hw.2 c hc
  obtain rfl : c = '\x00' := Char.toNat_inj.mp hzero
  exact absurd hpart (by decide)

/-- A list is sound when what stands between its commas is. -/
theorem sound_commaList {ι : Type} {text : ι → List Char} {items : List ι} (h : ∀ i ∈ items, Sound (text i)) :
    Sound (commaList (items.map text)) := by
  unfold commaList
  induction items with
  | nil => exact fun _ hc => absurd hc List.not_mem_nil
  | cons first items ih =>
    have hfirst := h first List.mem_cons_self
    cases items with
    | nil =>
      rw [List.map_singleton, List.intercalate_singleton]
      exact hfirst
    | cons second items =>
      rw [List.map_cons, List.map_cons, List.intercalate_cons_cons, ← List.map_cons]
      exact (hfirst.append (by decide)).append (ih (fun i hi => h i (List.mem_cons_of_mem first hi)))

/-- Only the name of a column can make its definition unsound. -/
theorem ColumnDef.sound {c : ColumnDef} (hname : Sound c.name.toList) (hc : isWord c.declaration.toList = true) :
    Sound c.chars := by
  have hblank : Sound [' '] := by decide
  refine (sound_nameChars hname).append (hblank.append ((sound_of_isWord hc).append ?_))
  cases c.nullable with
  | true => decide
  | false => decide

/-- The statement that a sound text is, is the one that its tokens make. -/
theorem ofText?_of_lexes {s : Statement} (hsound : Sound s.chars) (h : Lexes s.chars ts) :
    Statement.ofText? s.text = ofTokens? ts := by
  have hchars : s.text.toList = s.chars := String.toList_ofList
  have hany : s.chars.any (fun c => c.toNat == 0) = false := by
    rw [List.any_eq_false]
    intro c hc
    simpa using hsound c hc
  have htokens : tokens? s.text = readTokens s.chars.length s.chars := by
    unfold tokens?
    rw [hchars]
    simp only [hany, Bool.false_eq_true, if_false]
  rw [Statement.ofText?, htokens, h _ (Nat.le_refl _), Option.bind_some]

/-- **A statement that creates a table is read as it was written**, whatever its names hold. -/
theorem ofText?_createTable {name : String} {columns : List ColumnDef} (hname : Sound name.toList)
    (hne : columns ≠ []) (hcolumns : ∀ c ∈ columns, Sound c.name.toList ∧ isWord c.declaration.toList = true) :
    Statement.ofText? (Statement.createTable name columns).text = some (.createTable name columns) := by
  rw [ofText?_of_lexes ?_ (lexes_createTable (fun c hc => (hcolumns c hc).2)), ofTokens?_createTable name hne]
  have hlist := sound_commaList (fun c hc => ColumnDef.sound (hcolumns c hc).1 (hcolumns c hc).2)
  have hstart : Sound "CREATE TABLE ".toList := by decide
  exact (((hstart.append (sound_nameChars hname)).append (by decide)).append hlist).append (by decide)

/-- The query for the number of rows is read as it was written. -/
theorem ofText?_rowCount {table : String} (h : Sound table.toList) :
    Statement.ofText? (Statement.rowCount table).text = some (.rowCount table) := by
  have hstart : Sound "SELECT count(*) AS n FROM ".toList := by decide
  have hsound : Sound (Statement.rowCount table).chars := hstart.append (sound_nameChars h)
  rw [ofText?_of_lexes hsound (lexes_rowCount table), ofTokens?_rowCount]

/-- The query for all columns is read as it was written. -/
theorem ofText?_allColumns {table : String} (h : Sound table.toList) :
    Statement.ofText? (Statement.allColumns table).text = some (.allColumns table) := by
  have hstart : Sound "SELECT * FROM ".toList := by decide
  have hsound : Sound (Statement.allColumns table).chars := hstart.append (sound_nameChars h)
  rw [ofText?_of_lexes hsound (lexes_allColumns table), ofTokens?_allColumns]

end Sql
end TableSpec
