import TableSpec.Error
import TableSpec.KeyMap
import TableSpec.Scalar

/-!
# `TableSpec.Document` — records in document formats

The catalog is exchanged in two formats. What a record looks like in a document is the same in both: its
fields under their names in a fixed order, those with their default value left out. This module says so
once, for every type of documents that can be built from texts, numbers, lists and entries and viewed as
such.

Views are read in the order of the text, because the first thing that is wrong decides what error there
is.

## Contents
- `Document`: building and viewing the values of a format.
- `Field`, `Field.text`, `Field.list`, ...: how one field of a record is read and written.
- `readRecord`, `writeRecord`.
-/

namespace TableSpec

/-- A format of documents: how its values are built, and what they are as texts, numbers and so on. -/
class Document (δ : Type) where
  /-- What is wrong with a value of another type than wanted. -/
  mistyped : Error
  ofText : String → δ
  ofFlag : Bool → δ
  ofNull : δ
  ofCount : Nat → δ
  ofItems : List δ → δ
  ofEntries : List (String × δ) → δ
  text : δ → Except Error String
  flag : δ → Except Error Bool
  count : δ → Except Error Nat
  scalar : δ → Except Error Scalar
  isNull : δ → Bool
  items : δ → Except Error (List δ)
  entries : δ → Except Error (List (String × δ))
  /-- The entries of a record whose fields have the given names, in order of declaration. -/
  fields : List String → δ → Except Error (List (String × δ))
  /-- Pass over a value that is not wanted. -/
  skip : δ → Except Error Unit

namespace Document

variable {δ : Type} [Document δ]

/-! ## Lists, maps and option values -/

/-- A list, each of whose items `read` reads. -/
def readList {α : Type} (read : δ → Except Error α) (d : δ) : Except Error (List α) := do
  (← items d).mapM read

/-- A map, each of whose values `read` reads. Of two entries for a key the last one counts. -/
def readMap {α : Type} (read : δ → Except Error α) (d : δ) : Except Error (KeyMap α) := do
  (← entries d).foldlM (fun m e => (read e.2).map (m.insert e.1)) .empty

/-- A value that may be missing. -/
def readOption {α : Type} (read : δ → Except Error α) (d : δ) : Except Error (Option α) :=
  if isNull d then .ok none else (read d).map some

/-- A set of names, given as a list. -/
def readSet (d : δ) : Except Error KeySet := (readList text d).map .ofList

/-- The value for an option. -/
def ofScalar : Scalar → δ
  | .bool b => ofFlag b
  | .text s => ofText s
  | .null => ofNull

/-- The value for a map, each of whose values `write` writes. -/
def writeMap {α : Type} (write : α → δ) (m : KeyMap α) : δ :=
  ofEntries (m.entries.map (fun e => (e.1, write e.2)))

end Document

/-! ## Records -/

/-- How a field of the records `σ` is read and written. -/
structure Field (δ σ : Type) where
  name : String
  /-- Put a value of the field into a record. -/
  read : δ → σ → Except Error σ
  /-- The value of the field; none where it is the default. -/
  write : σ → Option δ

namespace Field

open Document

variable {δ σ : Type} [Document δ]

/-- A field that is always written. -/
def count (name : String) (get : σ → Nat) (set : Nat → σ → σ) : Field δ σ where
  name := name
  read d s := (Document.count d).map (fun n => set n s)
  write s := some (ofCount (get s))

/-- A field whose default is no text. -/
def text (name : String) (get : σ → String) (set : String → σ → σ) : Field δ σ where
  name := name
  read d s := (Document.text d).map (fun t => set t s)
  write s := if (get s).isEmpty then none else some (ofText (get s))

/-- A field whose default is `false`. -/
def flag (name : String) (get : σ → Bool) (set : Bool → σ → σ) : Field δ σ where
  name := name
  read d s := (Document.flag d).map (fun b => set b s)
  write s := if get s then some (ofFlag true) else none

/-- A field whose default is the empty list. -/
def list {α : Type} (name : String) (read : δ → Except Error α) (write : α → δ) (get : σ → List α)
    (set : List α → σ → σ) : Field δ σ where
  name := name
  read d s := (readList read d).map (fun xs => set xs s)
  write s := if (get s).isEmpty then none else some (ofItems ((get s).map write))

/-- A field whose default is the empty set. -/
def names (name : String) (get : σ → KeySet) (set : KeySet → σ → σ) : Field δ σ where
  name := name
  read d s := (readSet d).map (fun xs => set xs s)
  write s := if (get s).isEmpty then none else some (ofItems ((get s).toList.map ofText))

/-- A field whose default is the empty map. -/
def map {α : Type} (name : String) (read : δ → Except Error α) (write : α → δ) (get : σ → KeyMap α)
    (set : KeyMap α → σ → σ) : Field δ σ where
  name := name
  read d s := (readMap read d).map (fun m => set m s)
  write s := if (get s).isEmpty then none else some (writeMap write (get s))

/-- A field whose default is to be missing. -/
def option {α : Type} (name : String) (read : δ → Except Error α) (write : α → δ) (get : σ → Option α)
    (set : Option α → σ → σ) : Field δ σ where
  name := name
  read d s := (readOption read d).map (fun o => set o s)
  write s := (get s).map write

end Field

section Records

variable {δ σ : Type} [Document δ]

/-- Read one entry of a record; the names of the fields read so far go along. A second entry for a field
    is wrong before its value is looked at; an entry without a field is passed over. -/
def readEntry (fields : List (Field δ σ)) (state : σ × List String) (entry : String × δ) :
    Except Error (σ × List String) :=
  match fields.find? (fun f => f.name = entry.1) with
  | none => (Document.skip entry.2).map (fun _ => state)
  | some f =>
    if state.2.contains f.name then .error (Document.mistyped δ)
    else (f.read entry.2 state.1).map (fun s => (s, f.name :: state.2))

/-- Read a record, starting from the default one. The required fields have to be there. -/
def readRecord (fields : List (Field δ σ)) (required : List String) (start : σ) (d : δ) :
    Except Error σ := do
  let entries ← Document.fields (fields.map Field.name) d
  let (s, seen) ← entries.foldlM (readEntry fields) (start, [])
  if required.all seen.contains then .ok s else .error (Document.mistyped δ)

/-- Write a record, leaving out the fields with their default value. -/
def writeRecord (fields : List (Field δ σ)) (s : σ) : δ :=
  Document.ofEntries (fields.filterMap (fun f => (f.write s).map (fun d => (f.name, d))))

end Records
end TableSpec
