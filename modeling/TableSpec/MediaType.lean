/-!
# `TableSpec.MediaType` — what a body is said to be

A media type is written as a type, a slash and a subtype, which may end in a suffix after a plus sign.
Parameters may follow; they have to be well formed, but do not count.

## Contents
- `MediaType`, `MediaType.ofText?`.
- `MediaType.isJson`.
-/

namespace TableSpec

/-- A media type without parameters, in lower case. -/
structure MediaType where
  main : String
  subtype : String
  suffix : Option String
  deriving DecidableEq, Repr, Inhabited

namespace MediaType

/-- The characters of names. -/
def isTokenChar (c : Char) : Bool := c.isAlphanum || "!#$%&'+-.^_\x60|~".toList.contains c

/-- The characters that may stand in a quoted value. -/
def isQuotable (c : Char) : Bool := c ≠ '"' && 0x1f < c.toNat && c.toNat ≠ 0x7f

/-- What follows the quoted value of a parameter, up to the next parameter. The value is not empty. -/
def afterQuoted (cs : List Char) : Option (List Char) :=
  match cs.span isQuotable with
  | (_ :: _, '"' :: rest) =>
    match rest.dropWhile (· == ' ') with
    | [] => some []
    | ';' :: rest => some rest
    | _ => none
  | _ => none

/-- What follows the value of a parameter, up to the next parameter. -/
def afterValue : List Char → Option (List Char)
  | '"' :: cs => afterQuoted cs
  | cs =>
    match cs.span isTokenChar with
    | (_, []) => some []
    | (_ :: _, ';' :: rest) => some rest
    | _ => none

/-- Whether parameters are well formed. The number bounds how many there may be. -/
def areParameters : Nat → List Char → Bool
  | 0, cs => cs.isEmpty
  | n + 1, cs =>
    let cs := cs.dropWhile (· == ' ')
    cs.isEmpty ||
      match cs.span isTokenChar with
      | (_ :: _, '=' :: rest) => (afterValue rest).any (areParameters n)
      | _ => false

/-- Split a subtype at its last plus sign, which may not be its first character. -/
def splitSuffix (cs : List Char) : List Char × Option (List Char) :=
  let after := cs.reverse.takeWhile (· ≠ '+')
  match cs.reverse.drop after.length with
  | '+' :: before => if before.isEmpty then (cs, none) else (before.reverse, some after.reverse)
  | _ => (cs, none)

/-- Characters as a text in lower case. -/
def lower (cs : List Char) : String := String.ofList (cs.map Char.toLower)

/-- The media type that a text is. -/
def ofText? (s : String) : Option MediaType :=
  match s.toList.span isTokenChar with
  | (main@(_ :: _), '/' :: rest) =>
    let (name, rest) := rest.span isTokenChar
    let (subtype, suffix) := splitSuffix name
    let parameters := match rest with
      | [] => true
      | c :: rest => !name.isEmpty && (c = ' ' || c = ';') && areParameters rest.length rest
    if parameters then some ⟨lower main, lower subtype, suffix.map lower⟩ else none
  | _ => none

/-- Whether a body of this type is a JSON document. -/
def isJson (t : MediaType) : Bool := t.main = "application" && (t.subtype = "json" || t.suffix = some "json")

end MediaType
end TableSpec
