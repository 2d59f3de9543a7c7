import TableSpec.Column
import TableSpec.Platform

/-!
# `TableSpec.Schema` — the columns of a table

A schema lists columns and foreign keys. The base schema of a table applies everywhere; an extended one
applies to the platforms that it names.

## Contents
- `Schema` with `addPlatforms`, `addCategory`, `addDisjunction`, `addArgument`, `appliesTo`, `column?`.
- `Schema.ofCall`: the schema that `schema([...])` or `extended_schema(PLATFORM, [...])` declares.
-/

namespace TableSpec

/-- The columns of a table, everywhere or on some platforms. -/
structure Schema where
  /-- The platforms that the schema is for; none means all. -/
  platforms : KeySet := .empty
  /-- Whether the schema extends the base schema of its table. -/
  extended : Bool := false
  columns : List Column := []
  foreignKeys : List (KeyMap Scalar) := []
  deriving DecidableEq, Inhabited

namespace Schema

/-- Add platforms. -/
def addPlatforms (s : Schema) (platforms : List String) : Schema :=
  { s with platforms := s.platforms.union platforms }

/-- Add the platforms of a category. -/
def addCategory (s : Schema) (category : String) : Except Error Schema :=
  (Platform.ofCategory category).map s.addPlatforms

/-- Add the platforms that a disjunction of categories names. -/
def addDisjunction (s : Schema) (body : Node) : Except Error Schema :=
  (Platform.ofDisjunction body).map s.addPlatforms

/-- Add the platforms that the argument of an extended schema names. -/
def addArgument (s : Schema) (argument : Node) : Except Error Schema :=
  match argument with
  | .lambda body => s.addDisjunction body
  | node => (Platform.ofArgument node).map s.addPlatforms

/-- Whether the schema applies to a platform. -/
def appliesTo (s : Schema) (platform : String) : Bool :=
  s.platforms.isEmpty || decide (platform ∈ s.platforms)

/-- The first column with a name. -/
def column? (s : Schema) (name : String) : Option Column := s.columns.find? (fun c => c.name = name)

/-! ## Declarations -/

/-- Add what an element of a schema's list declares: a foreign key, or a column that takes the next index.
    A declaration without positional arguments is left out. -/
def addElement (s : Schema) (context : String) (element : Node) : Except Error Schema :=
  match element with
  | .call (.name callee) args keywords =>
    if callee = "ForeignKey" then
      .ok { s with foreignKeys := s.foreignKeys ++ [.ofList (literalKeywords keywords)] }
    else if args.isEmpty then .ok s
    else
      let column := Column.ofCall ⟨.name callee, args, keywords⟩ s.columns.length
      .ok { s with columns := s.columns ++ [column] }
  | .call callee _ _ => .error (.unexpected context "call to a bare name" callee.describe)
  | node => .error (.unexpected context "call" node.describe)

/-- Add what the elements of a list declare; the first of them is at position `position`. -/
def addElements (callee : String) (s : Schema) : Nat → List Node → Except Error Schema
  | _, [] => .ok s
  | position, element :: rest => do
    let s ← s.addElement s!"{callee} column {position}" element
    addElements callee s (position + 1) rest

/-- Add what the list at a position of a call's arguments declares. -/
def addList (s : Schema) (callee : String) (call : Call) (position : Nat) : Except Error Schema :=
  match call.arg? position with
  | some (.list elements) => addElements callee s 0 elements
  | found =>
    .error (.unexpected s!"{callee} argument {position}" "list" (found.map Node.describe))

/-- The schema that a call declares. An extended schema names its platforms before its list. -/
def ofCall (call : Call) : Except Error Schema :=
  match call.callee with
  | .name callee =>
    if callee = "extended_schema" then
      match call.arg? 0 with
      | none => .error (.unexpected "extended_schema argument 0" "platform" none)
      | some argument => do
        let extension ← ({ extended := true } : Schema).addArgument argument
        extension.addList callee call 1
    else ({} : Schema).addList callee call 0
  | node => .error (.unexpected "schema callee" "name" node.describe)

end Schema
end TableSpec
