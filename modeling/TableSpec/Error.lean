import TableSpec.Text.Quoted

/-!
# `TableSpec.Error` — everything that can go wrong, and how it is told

Errors are values of one closed type, so that callers tell causes apart without looking at texts. Only
failures of the outside world (files, storage, foreign text formats) carry no detail of their own.

## Contents
- `Error`: the causes. `Error.inFile` names the file a cause comes from.
- `Error.within`: name the file, unless an inner step has named one already. `Error.isInFile`: one is named.
- `Error.message`: the text of a cause, where this library words it.
- `Error.chain`: a cause followed by what caused it, the form a command ends with.
-/

namespace TableSpec

/-- How a text fails to be a JSON document of the wanted type. -/
inductive JsonFault where
  /-- The text is not JSON. -/
  | malformed
  /-- The text ends inside a value. -/
  | truncated
  /-- The text is JSON, but of another type than wanted. -/
  | mistyped
  deriving DecidableEq, Repr, Inhabited

/-- What went wrong. -/
inductive Error where
  /-- A node does not have the form that its place asks for. -/
  | shape (context expected found : String)
  /-- A key is missing in one of the fixed tables. -/
  | lookup (key table : String)
  /-- A second base schema. -/
  | duplicateSchema (table : String)
  /-- The source is not in the grammar. -/
  | malformedSource (origin : String)
  /-- A cause, with the file that it comes from. -/
  | inFile (path : String) (cause : Error)
  /-- A column type that has no relational counterpart. -/
  | unknownColumnType (column typeName : String)
  /-- The manifest is locked. -/
  | databaseLocked
  /-- The database answers no query yet. -/
  | databaseNotReady
  | file
  | walk
  | json (fault : JsonFault)
  | yaml
  | storage
  deriving DecidableEq, Repr, Inhabited

namespace Error

/-- A node that was found where another form was expected; `none` when there was no node at all. -/
def unexpected (context expected : String) (found : Option String) : Error :=
  shape context expected (found.getD "nothing")

/-- Name the file of an error. An error that names a file already keeps that one. -/
def within (path : String) : Error → Error
  | inFile p cause => inFile p cause
  | cause => inFile path cause

/-- Whether an error names a file. -/
def isInFile : Error → Bool
  | inFile _ _ => true
  | _ => false

/-- The wording of an error; `none` where the wording belongs to the outside world. -/
def message : Error → Option String
  | shape context expected found => some s!"{context}: expected {expected}, found {found}"
  | lookup key table => some s!"no entry for {Quoted.quote key} in {table}"
  | duplicateSchema table => some s!"schema is already defined for table {Quoted.quote table}"
  | inFile path cause => (message cause).map (fun inner => s!"{path}: {inner}")
  | unknownColumnType column typeName => some s!"unsupported type {typeName} for column {column}"
  | databaseLocked => some "database has already been initialized and cannot be modified"
  | databaseNotReady => some "database must be initialized first"
  | malformedSource _ | file | walk | json _ | yaml | storage => none

/-- The wording, with a general phrase where the detail belongs to the outside world. -/
def display : Error → String
  | inFile path cause => s!"{path}: {display cause}"
  | malformedSource origin => s!"syntax error in {origin}: invalid syntax"
  | file => "IO error"
  | walk => "Walk error"
  | json _ => "JSON error"
  | yaml => "YAML error"
  | storage => "Storage error"
  | e => (message e).getD ""

/-- An error and its causes, outermost first. -/
def chain : Error → List String
  | e@(inFile _ cause) => display e :: chain cause
  | e => [display e]

/-- A cause that names no file gets exactly one layer. -/
theorem within_of_not_inFile {p : String} {e : Error} (h : e.isInFile = false) : within p e = inFile p e := by
  cases e with
  | inFile path cause => exact absurd h (by simp [isInFile])
  | _ => rfl

end Error
end TableSpec
