import TableSpec.Error
import TableSpec.KeyMap
import TableSpec.Source.Node

/-!
# `TableSpec.Column` — columns, and their types in the relational engine

A column keeps its type as it was written; only when the column is handed to the relational engine does
the type have to be one of eight known ones.

## Contents
- `Column`, `Column.ofCall`: a column from its declaration. `Column.flag`.
- `EngineType`: the known types, `EngineType.ofWord?` from the word in a specification, `word` back.
- `ServedColumn`, `Column.served`: the descriptor for the relational engine.
-/

namespace TableSpec

/-- A column of a schema. -/
structure Column where
  /-- The place in the order of declaration, from 0. -/
  index : Nat := 0
  name : String := ""
  /-- The type as it was written. -/
  typeName : String := ""
  description : String := ""
  aliases : List String := []
  options : KeyMap Scalar := .empty
  deriving DecidableEq, Inhabited

namespace Column

/-- The column that a call declares: name, type and description by position, options by keyword. What
    has the wrong form is left empty. -/
def ofCall (call : Call) (index : Nat) : Column where
  index := index
  name := ((call.arg? 0).bind Node.asText?).getD ""
  typeName := ((call.arg? 1).bind Node.asName?).getD ""
  description := ((call.arg? 2).bind Node.asText?).getD ""
  options := .ofList (literalKeywords call.keywords)

/-- Whether an option is set to true. -/
def flag (c : Column) (option : String) : Bool :=
  ((c.options.get? option).bind Scalar.asBool?).getD false

end Column

/-! ## Types -/

/-- The types of the relational engine. -/
inductive EngineType where
  | text
  | date
  | timestamp
  | int32
  | int64
  | uint64
  | float64
  | blob
  deriving DecidableEq, Repr, Inhabited

namespace EngineType

/-- The name of a type. -/
def name : EngineType → String
  | text => "text"
  | date => "date"
  | timestamp => "timestamp"
  | int32 => "int32"
  | int64 => "int64"
  | uint64 => "uint64"
  | float64 => "float64"
  | blob => "blob"

/-- The word for a type in a specification. -/
def word : EngineType → String
  | text => "TEXT"
  | date => "DATE"
  | timestamp => "DATETIME"
  | int32 => "INTEGER"
  | int64 => "BIGINT"
  | uint64 => "UNSIGNED_BIGINT"
  | float64 => "DOUBLE"
  | blob => "BLOB"

/-- How a column of a type is declared in the database. -/
def declaration : EngineType → String
  | text => "TEXT"
  | date => "DATE"
  | timestamp => "DATETIME"
  | int32 | int64 | uint64 => "INTEGER"
  | float64 => "REAL"
  | blob => "BLOB"

/-- All types. -/
def all : List EngineType := [text, date, timestamp, int32, int64, uint64, float64, blob]

/-- The type that a word in a specification stands for. -/
def ofWord? (token : String) : Option EngineType := all.find? (fun t => t.word = token)

/-- What to say of a word that stands for no type. -/
def unknownMessage (token : String) : String := s!"unknown column type token: {token}"

theorem ofWord?_word (t : EngineType) : ofWord? t.word = some t := by
  cases t <;> decide

theorem ofWord?_eq_some {token : String} {t : EngineType} : ofWord? token = some t ↔ token = t.word := by
  constructor
  · intro h
    have := List.find?_some h
    simpa [eq_comm] using this
  · rintro rfl
    exact ofWord?_word t

end EngineType

/-! ## Descriptors -/

/-- A column as the relational engine knows it. -/
structure ServedColumn where
  name : String
  /-- The table that the column belongs to. -/
  source : String
  engineType : EngineType
  nullable : Bool
  deriving DecidableEq, Repr, Inhabited

/-- The descriptor of a column in the table `table`; the type has to be known. -/
def Column.served (table : String) (c : Column) : Except Error ServedColumn :=
  match EngineType.ofWord? c.typeName with
  | some t => .ok ⟨c.name, table, t, true⟩
  | none => .error (.unknownColumnType c.name c.typeName)

end TableSpec
