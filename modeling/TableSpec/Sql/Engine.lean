import TableSpec.Error
import TableSpec.Json.Tree
import TableSpec.Sql.Statement

/-!
# `TableSpec.Sql.Engine` — tables without rows, and what queries say of them

The engine knows tables by their names and columns; no table has rows. Names of tables, and of the
columns of a table, are told apart without regard to the case of ASCII letters.

## Contents
- `Relation`, `Engine`, `Engine.create`.
- `Cell`, `Answer`, `Engine.answer`.
- `Engine.execute`, `Engine.query`: statements as texts.
-/

namespace TableSpec
namespace Sql

/-- A table of the engine. -/
structure Relation where
  name : String
  columns : List ColumnDef
  deriving DecidableEq, Repr, Inhabited

/-- The tables, in order of creation. -/
structure Engine where
  relations : List Relation := []
  deriving DecidableEq, Repr, Inhabited

/-! ## Creation -/

/-- How many columns a table, or an answer, may have. -/
def maxColumns : Nat := 2000

/-- The names that the engine keeps for itself begin so, in any case. -/
def reservedStart : List Char := "sqlite_".toList

/-- Whether a table may be called so. -/
def isFreeName (name : String) : Bool := !reservedStart.isPrefixOf (fold name).toList

/-- Whether two of several names are the same but for case. -/
def hasClash : List String → Bool
  | [] => false
  | name :: rest => rest.any (fun other => fold other = fold name) || hasClash rest

namespace Engine

/-- The table with a name. -/
def relation? (e : Engine) (name : String) : Option Relation :=
  e.relations.find? (fun r => fold r.name = fold name)

/-- Create a table. Its name has to be free and new, and its columns have to be told apart. -/
def create (e : Engine) (name : String) (columns : List ColumnDef) : Except Error Engine :=
  if isFreeName name && (e.relation? name).isNone && !hasClash (columns.map ColumnDef.name) &&
      columns.length ≤ maxColumns then .ok ⟨e.relations ++ [⟨name, columns⟩]⟩
  else .error .storage

end Engine

/-! ## Answers -/

/-- How many queries of constants may stand under one another. -/
def maxRows : Nat := 500

/-- A value in a result. -/
inductive Cell where
  | null
  | integer (value : Int)
  | real (value : Decimal)
  | text (value : String)
  /-- Bytes, as hexadecimal digits in lower case. -/
  | blob (digits : List Char)
  deriving DecidableEq, Repr, Inhabited

/-- What a query answers. -/
structure Answer where
  columns : List String
  rows : List (List Cell)
  deriving DecidableEq, Repr, Inhabited

/-- The value of a number: a whole number of 64 bits, or else a fraction. -/
def ofNumber (d : Decimal) : Cell :=
  let n : Int := if d.negative then -(d.significand : Int) else d.significand
  if d.whole && decide (-0x8000000000000000 ≤ n) && decide (n < 0x8000000000000000) then .integer n
  else .real { d with whole := false }

/-- The value that is written in a statement. -/
def ofValue : Value → Cell
  | .null => .null
  | .number d => ofNumber d
  | .text s => .text s
  | .blob digits => .blob (digits.map Char.toLower)

/-- The names that every table has for the number of a row. -/
def rowNumberNames : List String := ["rowid", "oid", "_rowid_"]

namespace Relation

/-- The name under which a column is answered that is asked for by another spelling. -/
def column? (r : Relation) (name : String) : Option String :=
  match r.columns.find? (fun c => fold c.name = fold name) with
  | some c => some c.name
  | none => if rowNumberNames.contains (fold name) then some "rowid" else none

/-- The name of a column that may be asked for together with a table. -/
def askedColumn? (r : Relation) (asked : Option String × String) : Option String :=
  if asked.1.all (fun table => fold table = fold r.name) then r.column? asked.2 else none

end Relation

/-- A result, or an error where something is missing. -/
def orStorage {α : Type} (o : Option α) : Except Error α :=
  match o with
  | some a => .ok a
  | none => .error .storage

namespace Engine

/-- What a query answers. Of columns there are only names, because there are no rows. -/
def answer (e : Engine) : Statement → Except Error Answer
  | .createTable _ _ => .error .storage
  | .columnInfo table =>
    let columns := ((e.relation? table).map Relation.columns).getD []
    .ok ⟨["name", "type"], columns.map (fun c => [.text c.name, .text c.declaration])⟩
  | .rowCount table => do
    let _ ← orStorage (e.relation? table)
    return ⟨["n"], [[.integer 0]]⟩
  | .allColumns table => do
    let r ← orStorage (e.relation? table)
    return ⟨r.columns.map ColumnDef.name, []⟩
  | .someColumns table asked => do
    let r ← orStorage (e.relation? table)
    let columns ← orStorage (asked.mapM r.askedColumn?)
    if columns.length ≤ maxColumns then return ⟨columns, []⟩
    .error .storage
  | .rows first more =>
    if more.all (fun row => row.length = first.length) && first.length ≤ maxColumns &&
        more.length < maxRows then
      .ok ⟨first.map Prod.snd, (first :: more).map (fun row => row.map (fun e => ofValue e.1))⟩
    else .error .storage

/-- Run a statement that creates a table. -/
def execute (e : Engine) (sql : String) : Except Error Engine :=
  match Statement.ofText? sql with
  | some (.createTable name columns) => e.create name columns
  | _ => .error .storage

/-- Run a query. -/
def query (e : Engine) (sql : String) : Except Error Answer :=
  match Statement.ofText? sql with
  | some statement => e.answer statement
  | none => .error .storage

end Engine

/-! ## Results as JSON -/

/-- A value as JSON. Infinity is none. -/
def Cell.json : Cell → Json
  | null => .null
  | integer n => .number ⟨n < 0, n.natAbs, 0, true⟩
  | real d => if d.tooLarge then .null else .number d
  | text s => .string s
  | blob digits => .string (String.ofList digits)

/-- A result as JSON. -/
def Answer.json (r : Answer) : Json :=
  .object [("columns", .array (r.columns.map .string)),
    ("rows", .array (r.rows.map (fun row => .array (row.map Cell.json))))]

end Sql
end TableSpec
