import TableSpec.Decimal
import TableSpec.Document

/-!
# `TableSpec.Json.Tree` — JSON documents

A text that is not JSON is still read as far as it goes: where it fails, the tree has a `broken` leaf,
which is the last thing in the tree. A reader of the tree that goes through it in order so meets what is
wrong with the text in the order of the text, whether it is the form or the type.

## Contents
- `Json`, `Json.fault?`.
- The `Document` instance. A record may also be written as the list of its fields.
-/

namespace TableSpec

/-- A JSON document. -/
inductive Json where
  | null
  | bool (value : Bool)
  | number (value : Decimal)
  | string (value : String)
  | array (items : List Json)
  | object (entries : List (String × Json))
  /-- The place where the text fails. -/
  | broken (fault : JsonFault)
  deriving Repr, Inhabited

namespace Json

mutual

/-- What is wrong with the text of a document, if something is. Where `numbers` are wanted, none may be too
    large. -/
def fault? (numbers : Bool) : Json → Option JsonFault
  | null | bool _ | string _ => none
  | number d => if numbers && d.tooLarge then some .malformed else none
  | array items => faultInItems? numbers items
  | object entries => faultInEntries? numbers entries
  | broken fault => some fault

/-- What is wrong first among items. -/
def faultInItems? (numbers : Bool) : List Json → Option JsonFault
  | [] => none
  | item :: rest => (fault? numbers item).or (faultInItems? numbers rest)

/-- What is wrong first among entries. -/
def faultInEntries? (numbers : Bool) : List (String × Json) → Option JsonFault
  | [] => none
  | (_, item) :: rest => (fault? numbers item).or (faultInEntries? numbers rest)

end

/-- What is wrong with a value of another type than wanted: a text or number that is broken is worse than
    one of the wrong type, while what is inside a list or an object is not looked at. -/
def mistake : Json → JsonFault
  | broken fault => fault
  | number d => if d.tooLarge then .malformed else .mistyped
  | null | bool _ | string _ | array _ | object _ => .mistyped

/-- The error for a value of another type than wanted. -/
def wrong {α : Type} (d : Json) : Except Error α := .error (.json d.mistake)

/-- The option value that a document is. Lists and objects are read to their end before they are found
    wrong. -/
def readScalar : Json → Except Error Scalar
  | null => .ok .null
  | bool b => .ok (.bool b)
  | string s => .ok (.text s)
  | d => .error (.json ((d.fault? true).getD .mistyped))

/-- The fields of a record that is written as a list: items take the names in order, and there may be no
    more items than names. -/
def nameItems : List String → List Json → List (String × Json)
  | _, [] => []
  | [], broken fault :: _ => [("", broken fault)]
  | [], _ :: _ => [("", broken .malformed)]
  | name :: names, item :: rest => (name, item) :: nameItems names rest

instance : Document Json where
  mistyped := .json .mistyped
  ofText := string
  ofFlag := bool
  ofNull := null
  ofCount n := number (.ofNat n)
  ofItems := array
  ofEntries := object
  text
    | string s => .ok s
    | d => d.wrong
  flag
    | bool b => .ok b
    | d => d.wrong
  count
    | number d =>
      match d.count? with
      | some n => .ok n
      | none => (number d).wrong
    | d => d.wrong
  scalar := readScalar
  isNull
    | null => true
    | _ => false
  items
    | array items => .ok items
    | d => d.wrong
  entries
    | object entries => .ok entries
    | d => d.wrong
  fields names
    | object entries => .ok entries
    | array items => .ok (nameItems names items)
    | d => d.wrong
  skip d :=
    match d.fault? false with
    | some fault => .error (.json fault)
    | none => .ok ()

end Json
end TableSpec
