/-!
# `TableSpec.Scalar` — free-form option values

Column options, table attributes and foreign keys carry values without a schema of their own: a truth
value, a text, or nothing.

## Contents
- `Scalar` with the partial views `asBool?` and `asText?`.
- `Scalar.display`: the text of a value in listings.
-/

namespace TableSpec

/-- An option value. -/
inductive Scalar where
  | bool (value : Bool)
  | text (value : String)
  | null
  deriving DecidableEq, Repr, Inhabited

namespace Scalar

/-- The truth value, when the scalar is one. -/
def asBool? : Scalar → Option Bool
  | bool b => some b
  | _ => none

/-- The text, when the scalar is one. -/
def asText? : Scalar → Option String
  | text s => some s
  | _ => none

/-- How the value reads in a listing; texts stand without quotes. -/
def display : Scalar → String
  | bool true => "true"
  | bool false => "false"
  | text s => s
  | null => "null"

end Scalar
end TableSpec
