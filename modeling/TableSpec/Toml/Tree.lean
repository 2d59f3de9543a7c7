/-!
# `TableSpec.Toml.Tree` — documents of settings

A document is a table: values under keys. It is built definition by definition, and no definition may change
what an earlier one has said. What may still be added to a table therefore depends on how it came about.

## Contents
- `Toml`, `Toml.Origin`.
- `Toml.changeAt`: change the table that a path leads to.
- `Toml.define`, `Toml.openTable`, `Toml.openRow`: the three kinds of definitions.
-/

namespace TableSpec

/-- How a table came about. -/
inductive Toml.Origin where
  /-- It has a header, or is the whole document. -/
  | header
  /-- It is on the way to a table with a header. -/
  | passed
  /-- It is on the way to the key of a value. -/
  | dotted
  /-- It was written as a value, and nothing may be added. -/
  | closed
  deriving DecidableEq, Repr, Inhabited

/-- A value. -/
inductive Toml where
  | string (value : String)
  | integer (value : Int)
  | bool (value : Bool)
  /-- A fraction; its value is not kept. -/
  | fraction
  /-- A date or a time; its value is not kept. -/
  | moment
  | array (items : List Toml)
  | table (origin : Toml.Origin) (entries : List (String × Toml))
  /-- Tables that share a header. -/
  | rows (tables : List (List (String × Toml)))
  deriving Repr, Inhabited

namespace Toml

/-- The entries of a table, in order. -/
abbrev Entries := List (String × Toml)

/-- Put another value under a key that is there. -/
def replace (entries : Entries) (key : String) (value : Toml) : Entries :=
  entries.map (fun e => if e.1 = key then (key, value) else e)

/-- Change the entries of the table that a path leads to from a table; `change` is told how it came about.
    Tables on the way that are not there come about as `fresh`. Of tables with the same header the last one
    is meant. A key with points leads through no table that has a header. -/
def changeAt (fresh : Origin) (change : Origin → Entries → Option Entries) :
    List String → Origin → Entries → Option Entries
  | [], origin, entries => change origin entries
  | key :: path, _, entries =>
    match entries.lookup key with
    | none => (changeAt fresh change path fresh []).map (fun sub => entries ++ [(key, table fresh sub)])
    | some (table origin sub) =>
      if origin = .closed || (fresh = .dotted && origin = .header) then none
      else (changeAt fresh change path origin sub).map (fun sub => replace entries key (table origin sub))
    | some (rows tables) =>
      (changeAt fresh change path .header (tables.getLast?.getD [])).map
        (fun last => replace entries key (rows (tables.dropLast ++ [last])))
    | some (string _) | some (integer _) | some (bool _) | some fraction | some moment | some (array _) => none

/-- Define a value in a table under a key, which may have points. What is on the way to it has to have come
    about by such keys. -/
def define (key : List String) (value : Toml) (origin : Origin) (entries : Entries) : Option Entries :=
  let path := key.dropLast
  let last := key.getLast?.getD ""
  let add (origin : Origin) (entries : Entries) : Option Entries :=
    if (origin = .dotted) = (path = []) || (entries.lookup last).isSome then none
    else some (entries ++ [(last, value)])
  changeAt .dotted add path origin entries

/-- Define a table by its header. Only a table that was on the way to others may be there already. -/
def openTable (header : List String) (document : Entries) : Option Entries :=
  let key := header.getLast?.getD ""
  let add (_ : Origin) (entries : Entries) : Option Entries :=
    match entries.lookup key with
    | none => some (entries ++ [(key, table .header [])])
    | some (table .passed sub) => some (replace entries key (table .header sub))
    | some _ => none
  changeAt .passed add header.dropLast .header document

/-- Add a table to those that share a header. -/
def openRow (header : List String) (document : Entries) : Option Entries :=
  let key := header.getLast?.getD ""
  let add (_ : Origin) (entries : Entries) : Option Entries :=
    match entries.lookup key with
    | none => some (entries ++ [(key, rows [[]])])
    | some (rows tables) => some (replace entries key (rows (tables ++ [[]])))
    | some _ => none
  changeAt .passed add header.dropLast .header document

end Toml
end TableSpec
