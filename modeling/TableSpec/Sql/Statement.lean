import TableSpec.Column
import TableSpec.Sql.Token

/-!
# `TableSpec.Sql.Statement` — the statements of the database

Few forms of statements are used: one that creates a table, and four kinds of queries. Each has one
written form; the reader also takes names without quotes, keywords in any case and further blanks.

## Contents
- `ColumnDef`, `Value`, `Statement`.
- `Statement.text`: the written form.
- `Statement.ofText?`: the statement that a text is.
-/

namespace TableSpec
namespace Sql

/-- A column of a table that is created. -/
structure ColumnDef where
  name : String
  /-- The word for the type. -/
  declaration : String
  nullable : Bool
  deriving DecidableEq, Repr, Inhabited

/-- A value that is written in a statement. -/
inductive Value where
  | null
  | number (value : Decimal)
  | text (value : String)
  /-- Bytes, as hexadecimal digits. -/
  | blob (digits : List Char)
  deriving DecidableEq, Repr, Inhabited

/-- A statement. -/
inductive Statement where
  | createTable (name : String) (columns : List ColumnDef)
  /-- Names and types of the columns of a table. -/
  | columnInfo (table : String)
  /-- How many rows a table has. -/
  | rowCount (table : String)
  /-- All columns of a table. -/
  | allColumns (table : String)
  /-- Some columns of a table, each with the table that it is said to be of, if it is said. -/
  | someColumns (table : String) (columns : List (Option String × String))
  /-- Rows of labelled values. -/
  | rows (first : List (Value × String)) (more : List (List (Value × String)))
  deriving DecidableEq, Repr, Inhabited

/-! ## Written forms -/

/-- A name with its quotes. -/
def nameChars (s : String) : List Char := quoted '"' s.toList

/-- A text with its quotes. -/
def literalChars (s : String) : List Char := quoted '\'' s.toList

/-- Texts with a comma and a blank between them. -/
def commaList (texts : List (List Char)) : List Char := List.intercalate [',', ' '] texts

/-- A column of a table that is created. -/
def ColumnDef.chars (c : ColumnDef) : List Char :=
  nameChars c.name ++ ' ' :: (c.declaration.toList ++ if c.nullable then [] else " NOT NULL".toList)

/-- A value. -/
def Value.chars : Value → List Char
  | null => "NULL".toList
  | number d => d.chars
  | text s => literalChars s
  | blob digits => 'x' :: quoted '\'' digits

/-- A row of labelled values. -/
def rowChars (row : List (Value × String)) : List Char :=
  "SELECT ".toList ++ commaList (row.map (fun e => e.1.chars ++ " AS ".toList ++ nameChars e.2))

/-- A column that is asked for. -/
def columnChars (c : Option String × String) : List Char :=
  match c.1 with
  | some table => nameChars table ++ '.' :: nameChars c.2
  | none => nameChars c.2

/-- The characters of a statement. -/
def Statement.chars : Statement → List Char
  | createTable name columns =>
    "CREATE TABLE ".toList ++ nameChars name ++ " (".toList ++ commaList (columns.map ColumnDef.chars) ++ [')']
  | columnInfo table =>
    "SELECT name, type FROM pragma_table_info(".toList ++ literalChars table ++ ") ORDER BY cid".toList
  | rowCount table => "SELECT count(*) AS n FROM ".toList ++ nameChars table
  | allColumns table => "SELECT * FROM ".toList ++ nameChars table
  | someColumns table columns =>
    "SELECT ".toList ++ commaList (columns.map columnChars) ++ " FROM ".toList ++ nameChars table
  | rows first more => List.intercalate " UNION ALL ".toList ((first :: more).map rowChars)

/-- The text of a statement. -/
def Statement.text (s : Statement) : String := String.ofList s.chars

/-! ## Readers -/

/-- A text with its ASCII letters in lower case. Keywords and names are compared so. -/
def fold (s : String) : String := s.map Char.toLower

/-- Take a keyword, given in lower case. -/
def keyword (word : String) : List Token → Option (List Token)
  | .word s :: ts => if fold s = word then some ts else none
  | _ => none

/-- Take several keywords. -/
def keywords (words : List String) (ts : List Token) : Option (List Token) :=
  words.foldl (fun ts word => ts.bind (keyword word)) (some ts)

/-- Take a mark. -/
def mark (c : Char) : List Token → Option (List Token)
  | .mark d :: ts => if c = d then some ts else none
  | _ => none

/-- Take a name, with or without quotes. -/
def readName : List Token → Option (String × List Token)
  | .name s :: ts | .word s :: ts => some (s, ts)
  | _ => none

/-- Take a text or a name. -/
def readLabel : List Token → Option (String × List Token)
  | .text s :: ts => some (s, ts)
  | ts => readName ts

/-- Items with commas between them. The number bounds how many there may be. -/
def commaItems {α : Type} (item : List Token → Option (α × List Token)) :
    Nat → List Token → Option (List α × List Token)
  | 0, _ => none
  | n + 1, ts => do
    let (a, ts) ← item ts
    match mark ',' ts with
    | some ts =>
      let (as, ts) ← commaItems item n ts
      return (a :: as, ts)
    | none => return ([a], ts)

/-- A column of a table that is created. -/
def readColumnDef (ts : List Token) : Option (ColumnDef × List Token) := do
  let (name, ts) ← readName ts
  match ts with
  | .word declaration :: ts =>
    match keywords ["not", "null"] ts with
    | some ts => return (⟨name, declaration, false⟩, ts)
    | none => return (⟨name, declaration, true⟩, ts)
  | _ => none

/-- A number with its signs. -/
def readSigned : List Token → Option (Decimal × List Token)
  | .mark '-' :: ts => (readSigned ts).map (fun r => ({ r.1 with negative := !r.1.negative }, r.2))
  | .mark '+' :: ts => readSigned ts
  | .number d :: ts => some (d, ts)
  | _ => none

/-- A value. -/
def readValue (ts : List Token) : Option (Value × List Token) :=
  match ts with
  | .text s :: ts => some (.text s, ts)
  | .blob digits :: ts => some (.blob digits, ts)
  | ts =>
    match keyword "null" ts with
    | some ts => some (.null, ts)
    | none => (readSigned ts).map (fun r => (.number r.1, r.2))

/-- A labelled value. -/
def readEntry (ts : List Token) : Option ((Value × String) × List Token) := do
  let (value, ts) ← readValue ts
  let ts ← keyword "as" ts
  let (label, ts) ← readLabel ts
  return ((value, label), ts)

/-- A row of labelled values. -/
def readRow (ts : List Token) : Option (List (Value × String) × List Token) := do
  let ts ← keyword "select" ts
  commaItems readEntry (ts.length + 1) ts

/-- The rows that follow another one. The number bounds how many there may be. -/
def readRows : Nat → List Token → Option (List (List (Value × String)) × List Token)
  | 0, _ => none
  | n + 1, ts =>
    match keywords ["union", "all"] ts with
    | none => some ([], ts)
    | some ts => do
      let (row, ts) ← readRow ts
      let (rows, ts) ← readRows n ts
      return (row :: rows, ts)

/-- A column that is asked for, possibly with its table. -/
def readColumn (ts : List Token) : Option ((Option String × String) × List Token) := do
  let (first, ts) ← readName ts
  match mark '.' ts with
  | some ts =>
    let (name, ts) ← readName ts
    return ((some first, name), ts)
  | none => return ((none, first), ts)

/-- Creation of a table. -/
def readCreate (ts : List Token) : Option (Statement × List Token) := do
  let ts ← keywords ["create", "table"] ts
  let (name, ts) ← readName ts
  let ts ← mark '(' ts
  let (columns, ts) ← commaItems readColumnDef (ts.length + 1) ts
  let ts ← mark ')' ts
  return (.createTable name columns, ts)

/-- The query for names and types of columns. -/
def readColumnInfo (ts : List Token) : Option (Statement × List Token) := do
  let ts ← keywords ["select", "name"] ts
  let ts ← mark ',' ts
  let ts ← keywords ["type", "from", "pragma_table_info"] ts
  let ts ← mark '(' ts
  let (table, ts) ← readLabel ts
  let ts ← mark ')' ts
  let ts ← keywords ["order", "by", "cid"] ts
  return (.columnInfo table, ts)

/-- The query for the number of rows. -/
def readRowCount (ts : List Token) : Option (Statement × List Token) := do
  let ts ← keywords ["select", "count"] ts
  let ts ← mark '(' ts
  let ts ← mark '*' ts
  let ts ← mark ')' ts
  let ts ← keywords ["as", "n", "from"] ts
  let (table, ts) ← readName ts
  return (.rowCount table, ts)

/-- The query for all columns. -/
def readAllColumns (ts : List Token) : Option (Statement × List Token) := do
  let ts ← keyword "select" ts
  let ts ← mark '*' ts
  let ts ← keyword "from" ts
  let (table, ts) ← readName ts
  return (.allColumns table, ts)

/-- The query for some columns. -/
def readSomeColumns (ts : List Token) : Option (Statement × List Token) := do
  let ts ← keyword "select" ts
  let (columns, ts) ← commaItems readColumn (ts.length + 1) ts
  let ts ← keyword "from" ts
  let (table, ts) ← readName ts
  return (.someColumns table columns, ts)

/-- The query for values. -/
def readValues (ts : List Token) : Option (Statement × List Token) := do
  let (first, ts) ← readRow ts
  let (more, ts) ← readRows (ts.length + 1) ts
  return (.rows first more, ts)

/-- Whether a statement is over. -/
def atEnd (ts : List Token) : Bool := ts.isEmpty || ts == [.mark ';']

/-- The statement that tokens make. -/
def ofTokens? (ts : List Token) : Option Statement :=
  [readCreate, readColumnInfo, readRowCount, readAllColumns, readSomeColumns, readValues].findSome? fun read =>
    (read ts).bind (fun r => if atEnd r.2 then some r.1 else none)

/-- The statement that a text is. -/
def Statement.ofText? (s : String) : Option Statement := (tokens? s).bind ofTokens?

end Sql
end TableSpec
