/-!
# `TableSpec.CommandLine.Elapsed` — lengths of time in words

A length of time is told in the largest unit of which there are about one and a half or more.

## Contents
- `Elapsed.units`, `Elapsed.text`.
-/

namespace TableSpec
namespace Elapsed

/-- The units above a second, with their milliseconds. -/
def units : List (String × Nat) :=
  [("year", 365 * 86400000), ("week", 7 * 86400000), ("day", 86400000), ("hour", 3600000), ("minute", 60000)]

/-- How many units of a size there are, to the nearest. -/
def rounded (milliseconds size : Nat) : Nat := (milliseconds + size / 2) / size

/-- A number of units. -/
def phrase (count : Nat) (name : String) : String :=
  toString count ++ " " ++ name ++ if count = 1 then "" else "s"

/-- The length of a time in the first of several units that is small enough; seconds always are. -/
def textIn (milliseconds : Nat) : List (String × Nat) → String
  | [] => phrase (rounded milliseconds 1000) "second"
  | (name, size) :: rest =>
    let next := rest.head?.elim 1000 Prod.snd
    if size + size / 2 ≤ milliseconds + next / 2 then phrase (max (rounded milliseconds size) 2) name
    else textIn milliseconds rest

/-- The length of a time. -/
def text (milliseconds : Nat) : String := textIn milliseconds units

end Elapsed
end TableSpec
