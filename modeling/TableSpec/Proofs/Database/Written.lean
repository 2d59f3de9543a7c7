import TableSpec.Proofs.Database.Kept
import TableSpec.Proofs.Sql.Statement

/-!
# `Proofs.Database.Written` — no name breaks out of its quotes

The statement that creates a table is put together from names that may hold anything: quotes, commas, brackets, the
words of the language, nothing at all. Every one of them stands between double quotes, where a quote is written
twice. Read by that rule the text falls into as many names as were put into it, each of them as it was. So the text
says which table and which columns it was made for.

## Contents
- `takeColumn`, `readBracket`, `readDefinition`, `definition?`: the table and the columns that a text defines.
- `takeColumn_tokens`, `readBracket_tokens`, `readDefinition_createTokens`: they are read from the tokens of a statement.
- `definition?_createTable`: they are read from its text. `definition?_createStatement`: all of it.
-/

namespace TableSpec
namespace Sql

/-! ## Definitions -/

/-- Take a column: a name between double quotes, a word for the type, and the mark of a column that may not be
    empty, if it is there. -/
def takeColumn : List Token → Option (ColumnDef × List Token)
  | .name name :: .word declaration :: .word "NOT" :: .word "NULL" :: ts => some (⟨name, declaration, false⟩, ts)
  | .name name :: .word declaration :: ts => some (⟨name, declaration, true⟩, ts)
  | _ => none

/-- The columns up to the closing bracket, which nothing may follow. -/
def readBracket (ts : List Token) : Option (List ColumnDef) :=
  if ts = [.mark ')'] then some []
  else
    match commaItems takeColumn (ts.length + 1) ts with
    | some (columns, [.mark ')']) => some columns
    | _ => none

/-- The table and the columns that tokens define. -/
def readDefinition : List Token → Option (String × List ColumnDef)
  | .word "CREATE" :: .word "TABLE" :: .name name :: .mark '(' :: ts =>
    (readBracket ts).map (fun columns => (name, columns))
  | _ => none

/-- The table and the columns that a text defines. -/
def definition? (s : String) : Option (String × List ColumnDef) :=
  (readTokens s.toList.length s.toList).bind readDefinition

/-! ## Reading what was written -/

theorem takeColumn_tokens (c : ColumnDef) (m : Char) (ts : List Token) :
    takeColumn (c.tokens ++ .mark m :: ts) = some (c, .mark m :: ts) := by
  obtain ⟨name, declaration, nullable⟩ := c
  cases nullable with
  | true => rfl
  | false => rfl

theorem readBracket_tokens (columns : List ColumnDef) :
    readBracket (commaTokens (columns.map ColumnDef.tokens) ++ [.mark ')']) = some columns := by
  unfold readBracket
  cases columns with
  | nil => rfl
  | cons first more =>
    -- a bracket that holds a column does not close at once
    have hopen : commaTokens ((first :: more).map ColumnDef.tokens) ++ [Token.mark ')'] ≠ [.mark ')'] := by
      cases more with
      | nil => rintro ⟨⟩
      | cons second more => rintro ⟨⟩
    rw [if_neg hopen, commaItems_bracket takeColumn_tokens first more]
    rfl

theorem readDefinition_createTokens (name : String) (columns : List ColumnDef) :
    readDefinition (createTokens name columns) = some (name, columns) := by
  unfold createTokens
  show (readBracket _).map _ = _
  rw [readBracket_tokens, Option.map_some]

/-- **The text of a statement that creates a table says which one**, whatever the names hold. -/
theorem definition?_createTable {name : String} {columns : List ColumnDef}
    (hcolumns : ∀ c ∈ columns, isWord c.declaration.toList = true) :
    definition? (Statement.createTable name columns).text = some (name, columns) := by
  have hchars : (Statement.createTable name columns).text.toList = (Statement.createTable name columns).chars :=
    String.toList_ofList
  unfold definition?
  rw [hchars, lexes_createTable hcolumns _ (Nat.le_refl _), Option.bind_some, readDefinition_createTokens]

end Sql

namespace Database

theorem isWord_declaration (t : EngineType) : Sql.isWord t.declaration.toList = true := by
  cases t <;> decide

theorem definition?_text (name : String) (columns : List ServedColumn) :
    Sql.definition? (createStatement name columns).text = some (name, (keepFirst [] columns).map columnDef) := by
  apply Sql.definition?_createTable
  intro d hd
  obtain ⟨c, -, rfl⟩ := List.mem_map.mp hd
  exact isWord_declaration c.engineType

/-- **No name breaks out of the statement that creates a table.** Read by the rule for quotes, its text defines one
    table, under its name, with the first column of each name in order, every one of them under its own name, with
    the word for its type and the mark of whether it may be empty, and nothing else. So two texts are the same just
    when the names of the tables are, and the names, the words and the marks of these columns. -/
theorem definition?_createStatement (name : String) (columns : List ServedColumn) :
    (∃ kept, FirstOfEach columns kept ∧
      Sql.definition? (createStatement name columns).text =
        some (name, kept.map fun c => ⟨c.name, c.engineType.declaration, c.nullable⟩)) ∧
    ∀ name' columns', (createStatement name columns).text = (createStatement name' columns').text ↔
      name = name' ∧ (keepFirst [] columns).map columnDef = (keepFirst [] columns').map columnDef := by
  refine ⟨⟨_, firstOfEach_keepFirst columns, definition?_text name columns⟩, ?_⟩
  intro name' columns'
  constructor
  · intro htext
    have hsame := definition?_text name columns
    rw [htext, definition?_text name' columns', Option.some.injEq, Prod.mk.injEq] at hsame
    exact ⟨hsame.1.symm, hsame.2.symm⟩
  · rintro ⟨rfl, hkept⟩
    unfold createStatement
    rw [hkept]

/-- Names that look like the rest of the statement, one of them made of quotes only. -/
example : Sql.definition? (createStatement "t\" (\"a\" TEXT)"
      [⟨"", "", .text, true⟩, ⟨"\"\"", "", .int64, false⟩, ⟨"x\", \"y", "", .blob, true⟩]).text =
    some ("t\" (\"a\" TEXT)", [⟨"", "TEXT", true⟩, ⟨"\"\"", "INTEGER", false⟩, ⟨"x\", \"y", "BLOB", true⟩]) := by
  decide +kernel

end Database
end TableSpec
