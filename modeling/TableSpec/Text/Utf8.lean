/-!
# `TableSpec.Text.Utf8` — texts as bytes

## Contents
- `byteLength`: how many bytes characters take in UTF-8.
- `dropBytes`: leave out bytes from the front.
- `fromUTF8?_toUTF8`: the bytes of a text are read as the text.
-/

namespace TableSpec

/-- How many bytes a text takes in UTF-8. -/
def byteLength (cs : List Char) : Nat := cs.foldr (fun c n => c.utf8Size + n) 0

/-- Leave out characters from the front until `bytes` bytes of UTF-8 are gone. -/
def dropBytes : Nat → List Char → List Char
  | _, [] => []
  | 0, cs => cs
  | n + 1, c :: cs => dropBytes (n + 1 - c.utf8Size) cs

theorem fromUTF8?_toUTF8 (s : String) : String.fromUTF8? s.toUTF8 = some s := by
  rw [String.fromUTF8?, String.toUTF8_eq_toByteArray, dif_pos s.isValidUTF8]
  rfl

end TableSpec
