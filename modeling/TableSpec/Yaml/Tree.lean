import TableSpec.Document
import TableSpec.Yaml.Resolve

/-!
# `TableSpec.Yaml.Tree` — YAML documents

A scalar is kept as a text, unless it was written without quotes and stands for something else; then it is
kept as it was written, because a place that wants a text takes it as one all the same.

## Contents
- `Yaml`, `Yaml.ofPlain`.
- The `Document` instance. Where nothing is written, every collection is empty.
-/

namespace TableSpec

/-- A YAML document. -/
inductive Yaml where
  | text (value : String)
  /-- A scalar without quotes that stands for something else than its text. -/
  | plain (spelling : String)
  | sequence (items : List Yaml)
  | mapping (entries : List (Yaml × Yaml))
  deriving Repr, Inhabited

namespace Yaml

/-- A scalar that is written without quotes. -/
def ofPlain (s : String) : Yaml := if isText s then text s else plain s

/-- What is written where nothing is written. -/
def nothing : Yaml := plain ""

/-- The text of a scalar. -/
def scalarText? : Yaml → Option String
  | text s | plain s => some s
  | sequence _ | mapping _ => none

/-- A scalar's text, as far as a place for texts is concerned. -/
def readText (d : Yaml) : Except Error String :=
  match d.scalarText? with
  | some s => .ok s
  | none => .error .yaml

/-- The entries of a mapping from texts. -/
def readEntries : Yaml → Except Error (List (String × Yaml))
  | mapping entries => entries.mapM (fun e => (readText e.1).map (fun key => (key, e.2)))
  | plain "" => .ok []
  | _ => .error .yaml

/-- The option value that a scalar is; numbers are none. -/
def readScalar : Yaml → Except Error Scalar
  | text s => .ok (.text s)
  | plain s =>
    if isNull s then .ok .null
    else match flag? s with
      | some b => .ok (.bool b)
      | none => .error .yaml
  | sequence _ | mapping _ => .error .yaml

instance : Document Yaml where
  mistyped := .yaml
  ofText := text
  ofFlag b := plain (if b then "true" else "false")
  ofNull := plain "null"
  ofCount n := plain (String.ofList (Digits.ofNat n))
  ofItems := sequence
  ofEntries entries := mapping (entries.map (fun e => (text e.1, e.2)))
  text := readText
  flag
    | plain s =>
      match flag? s with
      | some b => .ok b
      | none => .error .yaml
    | _ => .error .yaml
  count
    | plain s =>
      match count? s with
      | some n => .ok n
      | none => .error .yaml
    | _ => .error .yaml
  scalar := readScalar
  isNull
    | plain s => Yaml.isNull s
    | _ => false
  items
    | sequence items => .ok items
    | plain "" => .ok []
    | _ => .error .yaml
  entries := readEntries
  fields _ := readEntries
  skip _ := .ok ()

end Yaml
end TableSpec
