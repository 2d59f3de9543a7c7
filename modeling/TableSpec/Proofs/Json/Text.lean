import TableSpec.Json.Printer
import TableSpec.Json.Reader
import TableSpec.Proofs.Document.Record

/-!
# `Proofs.Json.Text` — JSON reads back as it was written

A reader takes the text of a value from the front and returns what is left, so what there is to say of a
value is said for every text that follows it. Only a number needs to know something about that text: it must
not go on with it (`Ends`). How much may be read is bounded by a number that the length of the text is below.

## Contents
- The `LawfulDocument` instance, `Json.Canonical` and `closed_canonical`.
- `readString_quoted`, `readNumber_ofNat`: strings and numbers.
- `readsBack_of_canonical`, `ofChars_pretty`: values.
-/

namespace TableSpec
namespace Json

/-! ## Trees as documents -/

instance : LawfulDocument Json where
  text_ofText _ := rfl
  flag_ofFlag _ := rfl
  count_ofCount {n} hn := by
    show (match (Decimal.ofNat n).count? with
      | some n => Except.ok n
      | none => (number (.ofNat n)).wrong) = _
    rw [Decimal.count?_ofNat, if_pos hn]
  lt_of_count {d n} h := by
    cases d with
    | number d =>
      have hcount : (match d.count? with
        | some n => Except.ok n
        | none => (number d).wrong) = Except.ok n := h
      split at hcount
      · rename_i m hm
        cases hcount
        unfold Decimal.count? at hm
        split at hm
        · rename_i hwhole
          exact Option.some.inj hm ▸ hwhole.2.2
        · exact absurd hm (by simp)
      · exact absurd hcount (by simp [wrong])
    | null | bool _ | string _ | array _ | object _ | broken _ =>
      exact absurd (show wrong _ = Except.ok n from h) (by simp [wrong])
  scalar_ofScalar v := by cases v <;> rfl
  isNull_ofEntries _ := rfl
  items_ofItems _ := rfl
  entries_ofEntries _ := rfl
  fields_ofEntries _ _ := rfl

/-- The trees that are built from values: numbers are counts, and nothing is broken. -/
inductive Canonical : Json → Prop where
  | null : Canonical null
  | bool (b : Bool) : Canonical (bool b)
  | number (n : Nat) : Canonical (number (.ofNat n))
  | string (s : String) : Canonical (string s)
  | array {items : List Json} : (∀ d ∈ items, Canonical d) → Canonical (array items)
  | object {entries : List (String × Json)} : (∀ e ∈ entries, Canonical e.2) → Canonical (object entries)

theorem closed_canonical : Document.Closed Canonical where
  text := Canonical.string
  flag := Canonical.bool
  null := Canonical.null
  count := fun {n} _ => Canonical.number n
  items := Canonical.array
  entries := Canonical.object

/-! ## Strings -/

/-- The two digits of a control character, with zeros in front, are read as its code. -/
theorem hexNumber?_control : ∀ n, n < 32 →
    hexNumber? 4 0 ['0', '0', hexDigitChar (n / 16), hexDigitChar (n % 16)] = some n := by decide

theorem byteLength_control : ∀ n, n < 32 →
    byteLength ['0', '0', hexDigitChar (n / 16), hexDigitChar (n % 16)] = 4 := by decide

/-- An escape with digits is read as the character that it was made from. -/
theorem readUnicode_control {c : Char} (hc : c.toNat < 32) (rest : List Char) :
    readUnicode ('0' :: '0' :: hexDigitChar (c.toNat / 16) :: hexDigitChar (c.toNat % 16) :: rest) =
      .ok (c, rest) := by
  have hunit : readUnit ('0' :: '0' :: hexDigitChar (c.toNat / 16) :: hexDigitChar (c.toNat % 16) :: rest) =
      .ok (c.toNat, rest) := by
    have hnumber := hexNumber?_control c.toNat hc
    have hlength := byteLength_control c.toNat hc
    simp only [hexNumber?] at hnumber
    simp only [readUnit, List.take_succ_cons, List.take_zero, hlength, hexNumber?, hnumber]
    rfl
  -- a control character is no half of a pair
  have hlow : ¬(0xD800 ≤ c.toNat ∧ c.toNat < 0xDC00) := by omega
  rw [readUnicode, hunit]
  show (if 0xD800 ≤ c.toNat ∧ c.toNat < 0xDC00 then _ else _) = _
  rw [if_neg hlow, charOfCode?_toNat]
  rfl

theorem lt_space {c : Char} : c < ' ' ↔ c.toNat < 32 := Iff.rfl

/-- To read on and put a character in front is to put it in front of what is read. -/
theorem consChar_eq_map (c : Char) (x : Except JsonFault (List Char × List Char)) :
    (do
      let (ds, rest) ← x
      return (c :: ds, rest)) = x.map (fun r => (c :: r.1, r.2)) := by
  cases x <;> rfl

/-- An escape is read as the character that it stands for. -/
theorem stringBody_escape {cs : List Char} {d : Char} {rest : List Char} (h : readEscape cs = .ok (d, rest))
    (n : Nat) : stringBody (n + 1) ('\\' :: cs) = (stringBody n rest).map (fun r => (d :: r.1, r.2)) := by
  rw [stringBody, if_neg (by decide), if_pos rfl, h]
  exact consChar_eq_map d _

/-- A character is read from its written form. -/
theorem stringBody_escapeChar (c : Char) (n : Nat) (rest : List Char) :
    stringBody (n + 1) (escapeChar c ++ rest) = (stringBody n rest).map (fun r => (c :: r.1, r.2)) := by
  -- the seven characters with an escape of their own differ only in its letter
  have hletter : ∀ letter : Char, letterEscapes.lookup letter = some c →
      stringBody (n + 1) ('\\' :: letter :: rest) = (stringBody n rest).map (fun r => (c :: r.1, r.2)) := by
    intro letter hlookup
    refine stringBody_escape ?_ n
    rw [readEscape, hlookup]
  unfold escapeChar
  split
  · rename_i h
    subst h
    exact hletter '"' rfl
  split
  · rename_i h
    subst h
    exact hletter '\\' rfl
  split
  · rename_i h
    subst h
    exact hletter 'n' rfl
  split
  · rename_i h
    subst h
    exact hletter 'r' rfl
  split
  · rename_i h
    subst h
    exact hletter 't' rfl
  split
  · rename_i h
    subst h
    exact hletter 'b' rfl
  split
  · rename_i h
    subst h
    exact hletter 'f' rfl
  split
  · rename_i h
    have hescape : readEscape ('u' :: '0' :: '0' :: hexDigitChar (c.toNat / 16) :: hexDigitChar (c.toNat % 16) ::
        rest) = .ok (c, rest) := readUnicode_control (lt_space.mp h) rest
    exact stringBody_escape hescape n
  -- what is left stands for itself: the reader stops at none of the three tests
  · rename_i hquote hbackslash _ _ _ _ _ hcontrol
    show stringBody (n + 1) (c :: rest) = _
    rw [stringBody, if_neg hquote, if_neg hbackslash, if_neg hcontrol]
    exact consChar_eq_map c _

/-- The characters of a string are read up to its quote. The induction is on the characters. -/
theorem stringBody_flatMap (cs rest : List Char) : ∀ n, cs.length < n →
    stringBody n (cs.flatMap escapeChar ++ '"' :: rest) = .ok (cs, rest) := by
  induction cs with
  | nil =>
    intro n hn
    obtain ⟨m, rfl⟩ : ∃ m, n = m + 1 := ⟨n - 1, by simp at hn; omega⟩
    rw [List.flatMap_nil, List.nil_append, stringBody, if_pos rfl]
  | cons c cs ih =>
    intro n hn
    obtain ⟨m, rfl⟩ : ∃ m, n = m + 1 := ⟨n - 1, by simp at hn; omega⟩
    rw [List.flatMap_cons, List.append_assoc, stringBody_escapeChar, ih m (by simpa using hn)]
    rfl

/-- Escapes make a text longer, so that the bound of the reader is enough. -/
theorem length_le_flatMap_escapeChar (cs : List Char) : cs.length ≤ (cs.flatMap escapeChar).length := by
  induction cs with
  | nil => exact Nat.le_refl _
  | cons c cs ih =>
    have hc : 1 ≤ (escapeChar c).length := by
      unfold escapeChar
      repeat' split
      all_goals simp
    rw [List.flatMap_cons, List.length_append, List.length_cons]
    omega

/-- **A string reads back**, whatever characters are in it, and whatever follows it. -/
theorem readString_quoted (s : String) (rest : List Char) :
    readString (s.toList.flatMap escapeChar ++ '"' :: rest) = .ok (s, rest) := by
  have hlength := length_le_flatMap_escapeChar s.toList
  rw [readString, stringBody_flatMap _ _ _ (by simp only [List.length_append, List.length_cons]; omega)]
  show Except.ok (String.ofList s.toList, rest) = _
  rw [String.ofList_toList]

/-! ## Numbers -/

/-- What a number does not go on with. -/
def Ends (rest : List Char) : Prop :=
  ∀ c, rest.head? = some c → c.isDigit = false ∧ c ≠ '.' ∧ c ≠ 'e' ∧ c ≠ 'E'

/-- Digits are taken up to what ends a number. -/
theorem takeWhile_digits {digits rest : List Char} (hdigits : ∀ c ∈ digits, c.isDigit = true)
    (hrest : Ends rest) : (digits ++ rest).takeWhile Char.isDigit = digits := by
  rw [List.takeWhile_append_of_pos hdigits]
  cases rest with
  | nil => simp
  | cons c cs => simp [(hrest c rfl).1]

theorem dropWhile_digits {digits rest : List Char} (hdigits : ∀ c ∈ digits, c.isDigit = true)
    (hrest : Ends rest) : (digits ++ rest).dropWhile Char.isDigit = rest := by
  rw [List.dropWhile_append_of_pos hdigits]
  cases rest with
  | nil => rfl
  | cons c cs => simp [(hrest c rfl).1]

/-- The digits of a number are read, as there is no zero in front of them. -/
theorem readWhole_ofNat (n : Nat) {rest : List Char} (hrest : Ends rest) :
    readWhole (Digits.ofNat n ++ rest) = .ok (Digits.ofNat n, rest) := by
  have hdigits := Digits.isDigit_of_mem_ofNat n
  have hread : readDigits (Digits.ofNat n ++ rest) = .ok (Digits.ofNat n, rest) := by
    cases hcs : Digits.ofNat n with
    | nil => exact absurd hcs (Digits.ofNat_ne_nil n)
    | cons c cs =>
      have hc : c.isDigit = true := hdigits c (by simp [hcs])
      rw [List.cons_append, readDigits, if_pos hc, ← List.cons_append, ← hcs,
        takeWhile_digits hdigits hrest, dropWhile_digits hdigits hrest]
  -- a number is not written with a zero in front, which the reader would not take
  have hzero : ¬((Digits.ofNat n).head? = some '0' ∧ (Digits.ofNat n).length ≠ 1) := by
    rintro ⟨hhead, hlength⟩
    rw [Digits.eq_zero_of_head?_ofNat n hhead, Digits.ofNat_zero] at hlength
    exact hlength rfl
  rw [readWhole, hread]
  show (if (Digits.ofNat n).head? = some '0' ∧ (Digits.ofNat n).length ≠ 1 then _ else _) = _
  rw [if_neg hzero]
  rfl

/-- **A number reads back**, when what follows it does not go on with it. -/
theorem readNumber_ofNat (n : Nat) {rest : List Char} (hrest : Ends rest) :
    readNumber ((Decimal.ofNat n).chars ++ rest) = .ok (.ofNat n, rest) := by
  have hsign : (Digits.ofNat n ++ rest).head? ≠ some '-' := by
    rw [List.head?_append, Option.or_of_isSome (by simp [Digits.ofNat_ne_nil])]
    intro h
    have := Digits.isDigit_of_mem_ofNat n '-' (List.mem_of_mem_head? h)
    exact absurd this (by decide)
  have hfraction : readFraction rest = .ok (none, rest) := by
    unfold readFraction
    split
    · exact absurd rfl (hrest '.' rfl).2.1
    · rfl
  have hpower : readPower rest = .ok (none, rest) := by
    unfold readPower
    split
    · rename_i c cs
      have hc := hrest c rfl
      rw [if_neg (by rintro (h | h); exact hc.2.2.1 h; exact hc.2.2.2 h)]
    · rfl
  show readNumber (Digits.ofNat n ++ rest) = _
  simp only [readNumber, hsign, if_false]
  refine bind_eq_ok.mpr ⟨(Digits.ofNat n, rest), readWhole_ofNat n hrest, ?_⟩
  refine bind_eq_ok.mpr ⟨(none, rest), hfraction, bind_eq_ok.mpr ⟨(none, rest), hpower, ?_⟩⟩
  show Except.ok (Decimal.mk false (Digits.toNat (Digits.ofNat n ++ [])) 0 true, rest) = _
  rw [List.append_nil, Digits.toNat_ofNat]
  rfl

/-! ## Values -/

/-- The blanks that are written. -/
def Blank (cs : List Char) : Prop := ∀ c ∈ cs, c = ' ' ∨ c = '\n'

theorem blank_space : Blank [' '] := by simp [Blank]

theorem blank_lineBreak (depth : Nat) : Blank (lineBreak depth) := by
  intro c hc
  rcases List.mem_cons.mp hc with rfl | hc
  · exact Or.inr rfl
  · exact Or.inl (List.mem_replicate.mp hc).2

/-- Blanks that are written are skipped. -/
theorem skipBlanks_append {blanks : List Char} (h : Blank blanks) (cs : List Char) :
    skipBlanks (blanks ++ cs) = skipBlanks cs := by
  refine List.dropWhile_append_of_pos fun c hc => ?_
  rcases h c hc with rfl | rfl
  · rfl
  · rfl

/-- Blanks in front of a value do not matter. -/
theorem value_append {blanks : List Char} (h : Blank blanks) (n : Nat) (cs : List Char) :
    value n (blanks ++ cs) = value n cs := by
  cases n with
  | zero => rfl
  | succ n => rw [value, value, skipBlanks_append h]

/-- Nor do they matter in front of the items of a list. -/
theorem items_append {blanks : List Char} (h : Blank blanks) (n : Nat) (cs : List Char) :
    items n (blanks ++ cs) = items n cs := by
  cases n with
  | zero => rfl
  | succ n => rw [items, items, value_append h]

/-- Nor in front of the entries of an object. -/
theorem members_append {blanks : List Char} (h : Blank blanks) (n : Nat) (cs : List Char) :
    members n (blanks ++ cs) = members n cs := by
  cases n with
  | zero => rfl
  | succ n => rw [members, members, skipBlanks_append h]

/-- A value reads back at every depth, whatever follows it, when the bound is above the length of its text. -/
def ReadsBack (d : Json) : Prop :=
  ∀ (n depth : Nat) (rest : List Char), (prettyChars depth d).length < n → Ends rest →
    value n (prettyChars depth d ++ rest) = (d, some rest)

/-- A number ends before anything that cannot go on with it. -/
theorem ends_cons {c : Char} {cs : List Char} (h : c.isDigit = false ∧ c ≠ '.' ∧ c ≠ 'e' ∧ c ≠ 'E') :
    Ends (c :: cs) := by
  intro d hd
  cases hd
  exact h

/-- The items of a list, up to its closing bracket. -/
theorem items_prettyItems {item : Json} {more : List Json} (hitem : ReadsBack item)
    (hmore : ∀ d ∈ more, ReadsBack d) (depth outer : Nat) (rest : List Char) : ∀ n,
    (prettyChars depth item ++ prettyItems depth more).length + 1 < n →
    items n (prettyChars depth item ++ (prettyItems depth more ++ (lineBreak outer ++ ']' :: rest))) =
      (item :: more, some rest) := by
  induction more generalizing item with
  | nil =>
    intro n hn
    obtain ⟨m, rfl⟩ : ∃ m, n = m + 1 := ⟨n - 1, by omega⟩
    have hvalue := hitem m depth (lineBreak outer ++ ']' :: rest)
      (by simp only [List.length_append] at hn; omega) (ends_cons (by decide))
    rw [prettyItems, List.nil_append, items, hvalue]
    simp only [skipBlanks_append (blank_lineBreak outer)]
    rfl
  | cons next more ih =>
    intro n hn
    obtain ⟨m, rfl⟩ : ∃ m, n = m + 1 := ⟨n - 1, by omega⟩
    have hvalue := hitem m depth
      (prettyItems depth (next :: more) ++ (lineBreak outer ++ ']' :: rest))
      (by simp only [List.length_append] at hn; omega) (ends_cons (by decide))
    have hrest := ih (hmore next List.mem_cons_self) (fun d hd => hmore d (List.mem_cons_of_mem _ hd)) m
      (by simp only [prettyItems, List.length_append, List.length_cons] at hn ⊢; omega)
    rw [items, hvalue]
    -- what follows the first item is the comma in front of the next one
    have hcomma : skipBlanks (prettyItems depth (next :: more) ++ (lineBreak outer ++ ']' :: rest)) =
        ',' :: (lineBreak depth ++ (prettyChars depth next ++
          (prettyItems depth more ++ (lineBreak outer ++ ']' :: rest)))) := by
      simp [prettyItems, skipBlanks]
    simp only [hcomma, items_append (blank_lineBreak depth), hrest]

/-- The text of an entry. -/
def entryChars (depth : Nat) (key : String) (item : Json) : List Char :=
  quoted key ++ ':' :: ' ' :: prettyChars depth item

/-- What is read of an object's entry: the key, up to its colon, and the value after it. -/
theorem exists_entryChars (key : String) {item : Json} {n depth : Nat} {cs : List Char} (hitem : ReadsBack item)
    (hn : (prettyChars depth item).length < n) (hcs : Ends cs) :
    ∃ body after, entryChars depth key item ++ cs = '"' :: body ∧ readString body = .ok (key, ':' :: after) ∧
      value n after = (item, some cs) := by
  refine ⟨key.toList.flatMap escapeChar ++ '"' :: (':' :: ' ' :: (prettyChars depth item ++ cs)),
    ' ' :: (prettyChars depth item ++ cs), by simp [entryChars, quoted], readString_quoted key _, ?_⟩
  exact (value_append blank_space n _).trans (hitem n depth cs hn hcs)

/-- The last entry is followed by the bracket. -/
theorem members_last {key : String} {item : Json} {n depth : Nat} {cs rest : List Char} (hitem : ReadsBack item)
    (hn : (prettyChars depth item).length < n) (hcs : Ends cs) (hend : skipBlanks cs = '\x7d' :: rest) :
    members (n + 1) (entryChars depth key item ++ cs) = ([(key, item)], some rest) := by
  obtain ⟨body, after, hbody, hkey, hvalue⟩ := exists_entryChars key hitem hn hcs
  have hquote : skipBlanks ('"' :: body) = '"' :: body := rfl
  have hcolon : skipBlanks (':' :: after) = ':' :: after := rfl
  rw [hbody, members]
  simp only [hquote, hkey, hcolon, hvalue, hend]

/-- An entry with a comma behind it is read with those that follow. -/
theorem members_next {key : String} {item : Json} {n depth : Nat} {cs more rest : List Char}
    {es : List (String × Json)} (hitem : ReadsBack item) (hn : (prettyChars depth item).length < n)
    (hcs : Ends cs) (hcomma : skipBlanks cs = ',' :: more) (hmore : members n more = (es, some rest)) :
    members (n + 1) (entryChars depth key item ++ cs) = ((key, item) :: es, some rest) := by
  obtain ⟨body, after, hbody, hkey, hvalue⟩ := exists_entryChars key hitem hn hcs
  have hquote : skipBlanks ('"' :: body) = '"' :: body := rfl
  have hcolon : skipBlanks (':' :: after) = ':' :: after := rfl
  rw [hbody, members]
  simp only [hquote, hkey, hcolon, hvalue, hcomma, hmore]

/-- The entries of an object, up to its closing brace. -/
theorem members_prettyEntries {key : String} {item : Json} {more : List (String × Json)}
    (hitem : ReadsBack item) (hmore : ∀ e ∈ more, ReadsBack e.2) (depth outer : Nat) (rest : List Char) : ∀ n,
    (entryChars depth key item ++ prettyEntries depth more).length + 1 < n →
    members n (entryChars depth key item ++
        (prettyEntries depth more ++ (lineBreak outer ++ '\x7d' :: rest))) =
      ((key, item) :: more, some rest) := by
  induction more generalizing key item with
  | nil =>
    intro n hn
    obtain ⟨m, rfl⟩ : ∃ m, n = m + 1 := ⟨n - 1, by omega⟩
    have hlength : (prettyChars depth item).length < m := by
      simp only [entryChars, List.length_append, List.length_cons] at hn
      omega
    exact members_last hitem hlength (ends_cons (by decide)) (skipBlanks_append (blank_lineBreak outer) _)
  | cons next more ih =>
    obtain ⟨nextKey, nextItem⟩ := next
    intro n hn
    obtain ⟨m, rfl⟩ : ∃ m, n = m + 1 := ⟨n - 1, by omega⟩
    -- what follows the first entry is the comma in front of the next one
    have hnext : prettyEntries depth ((nextKey, nextItem) :: more) =
        ',' :: (lineBreak depth ++ (entryChars depth nextKey nextItem ++ prettyEntries depth more)) := by
      simp [prettyEntries, entryChars]
    rw [hnext] at hn
    simp only [List.length_append, List.length_cons] at hn
    have hlength : (prettyChars depth item).length < m := by
      simp only [entryChars, List.length_append, List.length_cons] at hn
      omega
    have hnextItem : ReadsBack nextItem := hmore (nextKey, nextItem) List.mem_cons_self
    have hrest := @ih nextKey nextItem hnextItem (fun e he => hmore e (List.mem_cons_of_mem _ he)) m (by
      simp only [List.length_append]
      omega)
    rw [hnext, List.cons_append]
    refine members_next hitem hlength (ends_cons (by decide)) rfl ?_
    rw [List.append_assoc, members_append (blank_lineBreak depth), List.append_assoc]
    exact hrest

/-- An object with entries has each of them on a line, and its bracket on the last one. -/
theorem prettyChars_object (depth : Nat) (key : String) (item : Json) (more : List (String × Json)) :
    prettyChars depth (object ((key, item) :: more)) =
      '\x7b' :: (lineBreak (depth + 1) ++ (entryChars (depth + 1) key item ++
        (prettyEntries (depth + 1) more ++ (lineBreak depth ++ ['\x7d'])))) := by
  simp [prettyChars, entryChars]

/-- A list with items has each of them on a line, and its bracket on the last one. -/
theorem prettyChars_array (depth : Nat) (item : Json) (more : List Json) :
    prettyChars depth (array (item :: more)) =
      '[' :: (lineBreak (depth + 1) ++ (prettyChars (depth + 1) item ++
        (prettyItems (depth + 1) more ++ (lineBreak depth ++ [']'])))) := by
  simp [prettyChars]

theorem skipBlanks_cons {c : Char} (h : c ≠ ' ' ∧ c ≠ '\n' ∧ c ≠ '\t' ∧ c ≠ '\r') (cs : List Char) :
    skipBlanks (c :: cs) = c :: cs := by
  simp [skipBlanks, h]

/-- The text of a value begins with neither a blank nor a closing bracket. -/
theorem exists_cons_prettyChars (depth : Nat) {d : Json} (h : Canonical d) : ∃ c cs,
    prettyChars depth d = c :: cs ∧ (c ≠ ' ' ∧ c ≠ '\n' ∧ c ≠ '\t' ∧ c ≠ '\r') ∧ c ≠ ']' := by
  cases h with
  | null => exact ⟨_, _, rfl, by decide, by decide⟩
  | bool b => cases b <;> exact ⟨_, _, rfl, by decide, by decide⟩
  | string s => exact ⟨_, _, rfl, by decide, by decide⟩
  | number n =>
    cases hcs : Digits.ofNat n with
    | nil => exact absurd hcs (Digits.ofNat_ne_nil n)
    | cons c cs =>
      have hc : c.isDigit = true := Digits.isDigit_of_mem_ofNat n c (by simp [hcs])
      refine ⟨c, cs, hcs, ⟨?_, ?_, ?_, ?_⟩, ?_⟩
      all_goals exact Digits.ne_of_isDigit hc (by decide)
  | @array items _ =>
    cases items with
    | nil => exact ⟨_, _, rfl, by decide, by decide⟩
    | cons item more => exact ⟨_, _, prettyChars_array depth item more, by decide, by decide⟩
  | @object entries _ =>
    cases entries with
    | nil => exact ⟨_, _, rfl, by decide, by decide⟩
    | cons e more => exact ⟨_, _, prettyChars_object depth e.1 e.2 more, by decide, by decide⟩

/-- A digit begins nothing but a number. -/
theorem value_digit {c : Char} (hc : c.isDigit = true) (n : Nat) (cs : List Char) :
    value (n + 1) (c :: cs) = leaf number (readNumber (c :: cs)) := by
  have hblank : c ≠ ' ' ∧ c ≠ '\n' ∧ c ≠ '\t' ∧ c ≠ '\r' := by
    refine ⟨?_, ?_, ?_, ?_⟩
    all_goals exact Digits.ne_of_isDigit hc (by decide)
  rw [value, skipBlanks_cons hblank]
  split
  case h_1 =>
    rename_i heq
    cases heq
  -- the last branch of the reader; all others want a character that is no digit
  case h_8 =>
    rename_i heq
    cases heq
    rw [if_pos (by simp [hc])]
  all_goals
    rename_i heq
    cases heq
    exact absurd hc (by decide)

/-- What is in the brackets of a list that is not empty is its items. -/
theorem value_items {c : Char} {cs rest : List Char} {vs : List Json} {n : Nat} {blanks : List Char}
    (hblanks : Blank blanks) (hc : (c ≠ ' ' ∧ c ≠ '\n' ∧ c ≠ '\t' ∧ c ≠ '\r') ∧ c ≠ ']')
    (h : items n (c :: cs) = (vs, some rest)) :
    value (n + 1) ('[' :: (blanks ++ c :: cs)) = (array vs, some rest) := by
  rw [value, skipBlanks_cons (by decide)]
  simp only [skipBlanks_append hblanks, skipBlanks_cons hc.1]
  split
  · rename_i heq
    exact absurd (List.cons.inj heq).1 hc.2
  · rw [h]

/-- What is in the braces of an object that is not empty is its entries. -/
theorem value_members {cs rest : List Char} {es : List (String × Json)} {n : Nat} {blanks : List Char}
    (hblanks : Blank blanks) (h : members n ('"' :: cs) = (es, some rest)) :
    value (n + 1) ('\x7b' :: (blanks ++ '"' :: cs)) = (object es, some rest) := by
  rw [value, skipBlanks_cons (by decide)]
  simp only [skipBlanks_append hblanks, skipBlanks_cons (c := '"') (by decide)]
  show (object (members n ('"' :: cs)).1, (members n ('"' :: cs)).2) = _
  rw [h]

/-- **A value reads back** at every depth, whatever follows it. -/
theorem readsBack_of_canonical {d : Json} (h : Canonical d) : ReadsBack d := by
  intro fuel depth rest hfuel hrest
  obtain ⟨n, rfl⟩ : ∃ n, fuel = n + 1 := ⟨fuel - 1, by omega⟩
  induction h generalizing n depth rest with
  | null => rfl
  | bool b => cases b <;> rfl
  | number k =>
    have hread := readNumber_ofNat k hrest
    show value (n + 1) ((Decimal.ofNat k).chars ++ rest) = _
    cases hcs : Digits.ofNat k with
    | nil => exact absurd hcs (Digits.ofNat_ne_nil k)
    | cons c cs =>
      have hc : c.isDigit = true := Digits.isDigit_of_mem_ofNat k c (by simp [hcs])
      have hchars : (Decimal.ofNat k).chars = c :: cs := hcs
      rw [hchars, List.cons_append] at hread ⊢
      rw [value_digit hc, hread]
      rfl
  | string s =>
    show value (n + 1) ('"' :: _ ++ rest) = _
    rw [List.cons_append, List.append_assoc, value, skipBlanks_cons (by decide)]
    exact congrArg (leaf string) (readString_quoted s rest)
  | @array items hitems ih =>
    cases items with
    | nil => rfl
    | cons item more =>
      -- the hypothesis speaks of successors as bounds, `ReadsBack` of all bounds that are large enough
      have hback : ∀ d ∈ item :: more, ReadsBack d := by
        intro d hd m depth rest hm hrest
        obtain ⟨m, rfl⟩ : ∃ k, m = k + 1 := ⟨m - 1, by omega⟩
        exact ih d hd depth rest hrest m hm
      rw [prettyChars_array] at hfuel ⊢
      simp only [List.length_append, List.length_cons] at hfuel
      have hread := items_prettyItems (hback item List.mem_cons_self)
        (fun d hd => hback d (List.mem_cons_of_mem _ hd)) (depth + 1) depth rest n
        (by simp only [List.length_append]; omega)
      -- an empty list and one with items are told apart by the first character
      obtain ⟨c, cs, hcs, hc⟩ := exists_cons_prettyChars (depth + 1) (hitems item List.mem_cons_self)
      rw [hcs, List.cons_append] at hread
      rw [hcs]
      simp only [List.cons_append, List.append_assoc, List.nil_append]
      exact value_items (blank_lineBreak (depth + 1)) hc hread
  | @object entries _ ih =>
    cases entries with
    | nil => rfl
    | cons e more =>
      have hback : ∀ e' ∈ e :: more, ReadsBack e'.2 := by
        intro e' he m depth rest hm hrest
        obtain ⟨m, rfl⟩ : ∃ k, m = k + 1 := ⟨m - 1, by omega⟩
        exact ih e' he depth rest hrest m hm
      rw [prettyChars_object] at hfuel ⊢
      simp only [List.length_append, List.length_cons] at hfuel
      have hread := @members_prettyEntries e.1 e.2 more (hback e List.mem_cons_self)
        (fun e' he => hback e' (List.mem_cons_of_mem _ he)) (depth + 1) depth rest n
        (by simp only [List.length_append]; omega)
      simp only [List.cons_append, List.append_assoc, List.nil_append]
      exact value_members (blank_lineBreak (depth + 1)) hread

/-- **The text of a tree is read as the tree**, and nothing is left. -/
theorem ofChars_pretty {d : Json} (h : Canonical d) : ofChars (pretty d).toList = (d, some []) := by
  have hback := readsBack_of_canonical h ((prettyChars 0 d).length + 1) 0 [] (Nat.lt_succ_self _)
    (fun c hc => by cases hc)
  rw [List.append_nil] at hback
  rw [pretty, String.toList_ofList]
  exact hback

/-- What is read of the text of a tree is what is read of the tree. -/
theorem decode_pretty {α : Type} (read : Json → Except Error α) {d : Json} (h : Canonical d) :
    decode read (pretty d) = read d := by
  rw [decode, ofChars_pretty h]
  cases hread : read d with
  | error e =>
    show (read d >>= _) = _
    rw [hread]
    rfl
  | ok a =>
    show (read d >>= _) = _
    rw [hread]
    rfl

end Json
end TableSpec
