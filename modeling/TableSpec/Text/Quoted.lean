import TableSpec.Text.Width

/-!
# `TableSpec.Text.Quoted` — names as they stand in messages

A key or table name is shown in double quotes. A quote or backslash inside is escaped, and whatever
would not show by itself (control characters, marks, characters without a shape) is written as its
code point, so the reader of a message sees where a name begins and ends.

## Contents
- `Quoted.quote`: the quoted form of a name.
-/

namespace TableSpec
namespace Quoted

/-- Characters beyond ASCII that have no visible shape: separators, format and control characters,
    surrogates, private use and the large unassigned areas. -/
def hiddenRanges : List CodeRange :=
  [(0x0080, 0x00A0), (0x00AD, 0x00AD), (0x05F5, 0x0605), (0x061C, 0x061C), (0x06DD, 0x06DD),
  (0x070E, 0x070F), (0x08E2, 0x08E2), (0x1680, 0x1680), (0x180E, 0x180E), (0x1FFF, 0x200F),
  (0x2028, 0x202F), (0x205F, 0x206F), (0x2FFC, 0x3000), (0xE000, 0xF8FF), (0xFFEF, 0xFFFB),
  (0xFFFE, 0xFFFF), (0x110BD, 0x110BD), (0x12544, 0x12F8F), (0x1342F, 0x143FF), (0x14647, 0x167FF),
  (0x16B90, 0x16E3F), (0x18D09, 0x1AFEF), (0x1B2FC, 0x1BBFF), (0x1BCA0, 0x1CEFF),
  (0x1D173, 0x1D17A), (0x1DAB0, 0x1DEFF), (0x1E300, 0x1E7DF), (0x1E960, 0x1EC70),
  (0x1FBFA, 0x1FFFF), (0x2EBE1, 0x2F7FF), (0x2FA1E, 0x2FFFF), (0x3134B, 0xE00FF),
  (0xE01F0, 0x10FFFF)]

/-- Lower-case hexadecimal digits without padding. -/
def hex (n : Nat) : List Char := (Nat.toDigits 16 n)

/-- Whether `c` is written as itself. -/
def isVisible (c : Char) : Bool :=
  if c.toNat < 128 then 32 ≤ c.toNat && c.toNat < 127
  else !(CodeRange.holds hiddenRanges c || Width.isMark c)

/-- One character of a name as it stands between the quotes. -/
def quoteChar (c : Char) : List Char :=
  if c = '"' then ['\\', '"']
  else if c = '\\' then ['\\', '\\']
  else if c = '\n' then ['\\', 'n']
  else if c = '\r' then ['\\', 'r']
  else if c = '\t' then ['\\', 't']
  else if c.toNat = 0 then ['\\', '0']
  else if isVisible c then [c]
  else ['\\', 'u', '{'] ++ hex c.toNat ++ ['}']

/-- A name between double quotes, as messages show it. -/
def quote (name : String) : String :=
  String.ofList ('"' :: name.toList.flatMap quoteChar ++ ['"'])

end Quoted
end TableSpec
