import TableSpec.Text.Digits
import TableSpec.Text.Hex

/-!
# `TableSpec.Service.Address` — addresses to listen on

An address is four numbers with points between, or groups of hexadecimal digits with colons between in
square brackets, and in both cases a colon and a port. One run of groups that are 0 may be left out between
two colons; the last two groups may be written as four numbers.

## Contents
- `readQuad`, `readGroups`: the two kinds of hosts.
- `isValid`: whether a text is an address.
-/

namespace TableSpec
namespace Address

/-- Take a mark. -/
def takeMark (c : Char) : List Char → Option (List Char)
  | d :: rest => if c = d then some rest else none
  | [] => none

/-- Take a decimal number below a bound. -/
def takeNumber (bound : Nat) (cs : List Char) : Option (List Char) :=
  let digits := cs.takeWhile Char.isDigit
  if digits ≠ [] && Digits.toNat digits < bound then some (cs.drop digits.length) else none

/-- Take one of four numbers, which has no leading zero. -/
def takeOctet (cs : List Char) : Option (List Char) :=
  match cs with
  | '0' :: c :: _ => if c.isDigit then none else takeNumber 256 cs
  | cs => takeNumber 256 cs

/-- Take four numbers with points between. -/
def readQuad (cs : List Char) : Option (List Char) := do
  let cs ← takeMark '.' (← takeOctet cs)
  let cs ← takeMark '.' (← takeOctet cs)
  takeOctet (← takeMark '.' (← takeOctet cs))

/-- Take a group of one to four hexadecimal digits. -/
def takeGroup (cs : List Char) : Option (List Char) :=
  let digits := cs.takeWhile (fun c => (hexDigit? c).isSome)
  if digits ≠ [] && digits.length ≤ 4 then some (cs.drop digits.length) else none

/-- What groups are taken by: how many there are, whether the last two were four numbers, and what is left. -/
structure Groups where
  count : Nat
  endsInQuad : Bool
  rest : List Char

/-- Take groups with colons between, of which `taken` are there already and `room` more may follow. Four
    numbers take the room of two groups. -/
def readGroups (taken : Nat) : Nat → List Char → Groups
  | 0, cs => ⟨taken, false, cs⟩
  | room + 1, cs =>
    let next := if taken = 0 then some cs else takeMark ':' cs
    match if room = 0 then none else next.bind readQuad with
    | some rest => ⟨taken + 2, true, rest⟩
    | none =>
      match next.bind takeGroup with
      | some rest => readGroups (taken + 1) room rest
      | none => ⟨taken, false, cs⟩

/-- Take eight groups, of which some may be left out. -/
def readHost (cs : List Char) : Option (List Char) :=
  let front := readGroups 0 8 cs
  if front.count = 8 then some front.rest
  else if front.endsInQuad then none
  else match front.rest with
    | ':' :: ':' :: rest => some (readGroups 0 (7 - front.count) rest).rest
    | _ => none

/-- Take the number of a zone, if there is one. -/
def skipZone (cs : List Char) : List Char :=
  match cs with
  | '%' :: rest => (takeNumber UInt32.size rest).getD cs
  | cs => cs

/-- Take a colon and a port. -/
def readPort (cs : List Char) : Option (List Char) := (takeMark ':' cs).bind (takeNumber UInt16.size)

/-- Whether a text is an address. -/
def isValid (s : String) : Bool :=
  match s.toList with
  | '[' :: rest => (((readHost rest).map skipZone).bind (takeMark ']')).bind readPort = some []
  | cs => (readQuad cs).bind readPort = some []

end Address
end TableSpec
