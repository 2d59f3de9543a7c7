import TableSpec.Text.Hex

/-!
# `TableSpec.Text.Percent` — bytes written with a percent sign

In an address a byte may be written as a percent sign and two hexadecimal digits. A percent sign before
anything else stands for itself.

## Contents
- `Percent.bytes`: the bytes that characters stand for.
- `Percent.decode?`: the text that they make, if they make one.
-/

namespace TableSpec
namespace Percent

/-- The bytes that characters stand for. -/
def bytes : List Char → List UInt8
  | '%' :: high :: low :: rest =>
    match hexDigit? high, hexDigit? low with
    | some a, some b => UInt8.ofNat (16 * a + b) :: bytes rest
    | _, _ => String.utf8EncodeChar '%' ++ bytes (high :: low :: rest)
  | c :: rest => String.utf8EncodeChar c ++ bytes rest
  | [] => []

/-- The text that the bytes make. -/
def decode? (s : String) : Option String := String.fromUTF8? ⟨(bytes s.toList).toArray⟩

end Percent
end TableSpec
