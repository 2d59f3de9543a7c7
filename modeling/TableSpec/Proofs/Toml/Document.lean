import Mathlib.Data.List.TakeDrop
import TableSpec.Proofs.Toml.Text

/-!
# `Proofs.Toml.Document` — documents of one line for each value

Settings are printed as a document without headers, in which every line defines a text or a count under a
bare key. Such documents are read back: a line adds its entry to those before it, and the whole gives the
entries in the order of the lines.

## Contents
- `integer?_ofNat`, `readWord_ofNat`: numbers of 63 bits.
- `WrittenAs`, `value_writtenAs`: the values that settings have, with their text.
- `isBare`, `Lines`: the documents. `readDefinition_line`: one line. `readLines_lines`: all lines.
- `ofText?_lines`: a document with distinct keys is read back.
-/

namespace TableSpec
namespace Toml

variable {c : Char} {n : Nat} {key : String} {v : Toml} {entries : Entries} {text rest : List Char}

/-! ## Numbers -/

theorem isGrouped_digits {cs : List Char} (hne : cs ≠ []) (hdigits : ∀ c ∈ cs, c.isDigit = true) :
    isGrouped Char.isDigit cs = true := by
  induction cs with
  | nil => contradiction
  | cons c rest ih =>
    have hc := hdigits c List.mem_cons_self
    have hrest : ∀ d ∈ rest, d.isDigit = true := fun d hd => hdigits d (List.mem_cons_of_mem c hd)
    cases rest with
    | nil => exact hc
    | cons d rest =>
      have hd : d ≠ '_' := Digits.ne_of_isDigit (hrest d List.mem_cons_self) (by decide)
      rw [isGrouped, if_neg hd, hc, ih (by simp) hrest]
      rfl

theorem isWhole_ofNat (n : Nat) : isWhole (Digits.ofNat n) = true := by
  have hgrouped := isGrouped_digits (Digits.ofNat_ne_nil n) (Digits.isDigit_of_mem_ofNat n)
  have hzero : (Digits.ofNat n = ['0'] || (Digits.ofNat n).head? ≠ some '0') = true := by
    by_cases h : (Digits.ofNat n).head? = some '0'
    · rw [Digits.eq_zero_of_head?_ofNat n h, Digits.ofNat_zero]
      rfl
    · simp [h]
  rw [isWhole, hgrouped, hzero]
  rfl

theorem ungrouped_digits {cs : List Char} (hdigits : ∀ c ∈ cs, c.isDigit = true) : ungrouped cs = cs := by
  refine List.filter_eq_self.mpr fun c hc => ?_
  exact decide_eq_true (Digits.ne_of_isDigit (hdigits c hc) (by decide))

/-- A number that begins with a digit has no sign. -/
theorem splitSign_ofNat (n : Nat) : splitSign (Digits.ofNat n) = (false, Digits.ofNat n) := by
  unfold splitSign
  split
  · rename_i heq
    exact absurd (congrArg List.head? heq) (Digits.head?_ofNat_ne (by decide) n)
  · rename_i heq
    exact absurd (congrArg List.head? heq) (Digits.head?_ofNat_ne (by decide) n)
  · rfl

/-- The digits of a number are read as the number, as there is no zero in front of them. -/
theorem whole?_ofNat (n : Nat) : whole? (Digits.ofNat n) = some (n : Int) := by
  have hdigits := Digits.isDigit_of_mem_ofNat n
  unfold whole?
  split
  -- the second character of a number in another base is a letter
  · exact absurd (hdigits 'x' (by simp [*])) (by decide)
  · exact absurd (hdigits 'o' (by simp [*])) (by decide)
  · exact absurd (hdigits 'b' (by simp [*])) (by decide)
  · rw [splitSign_ofNat]
    dsimp only
    rw [if_pos (isWhole_ofNat n), ungrouped_digits hdigits, Digits.toNat_ofNat]
    rfl

/-- Numbers of at most 63 bits are integers. -/
theorem integer?_ofNat (hn : n < 0x8000000000000000) : integer? (Digits.ofNat n) = some (n : Int) := by
  rw [integer?, whole?_ofNat, Option.filter_some, if_pos]
  rw [Bool.and_eq_true, decide_eq_true_eq, decide_eq_true_eq]
  omega

/-- A number is a word, and the line ends behind it. -/
theorem readWord_ofNat (hn : n < 0x8000000000000000) (rest : List Char) :
    readWord (Digits.ofNat n ++ '\n' :: rest) = some (integer n, '\n' :: rest) := by
  have hword : ∀ c ∈ Digits.ofNat n, isWordChar c = true := by
    intro c hc
    simp [isWordChar, Char.isAlphanum, Digits.isDigit_of_mem_ofNat n c hc]
  have hspan : (Digits.ofNat n ++ '\n' :: rest).span isWordChar = (Digits.ofNat n, '\n' :: rest) := by
    rw [List.span_eq_takeWhile_dropWhile, List.takeWhile_append_of_pos hword, List.dropWhile_append_of_pos hword]
    simp [show isWordChar '\n' = false from by decide]
  have htrue : Digits.ofNat n ≠ "true".toList :=
    fun h => Digits.head?_ofNat_ne (c := 't') (by decide) n (congrArg List.head? h)
  have hfalse : Digits.ofNat n ≠ "false".toList :=
    fun h => Digits.head?_ofNat_ne (c := 'f') (by decide) n (congrArg List.head? h)
  have hvalue : ofWord? (Digits.ofNat n) = some (integer n) := by
    rw [ofWord?, if_neg htrue, if_neg hfalse, integer?_ofNat hn]
  rw [readWord, hspan]
  dsimp only
  rw [if_neg (by simp), hvalue]
  rfl

/-! ## Values -/

/-- The values that settings have, with the text that they are written as. -/
inductive WrittenAs : Toml → List Char → Prop where
  | string (s : String) : WrittenAs (string s) (quoted s)
  | integer {n : Nat} (hn : n < 0x8000000000000000) : WrittenAs (integer n) (Digits.ofNat n)

/-- A text begins with a quote. -/
theorem exists_cons_quoted (s : String) : ∃ c more, quoted s = c :: more ∧ (c = '"' ∨ c = '\'') := by
  cases h : quotesFor s.toList <;> simp [quoted, quotedWith, h, Quotes.mark, Quotes.isTriple, Quotes.char, List.replicate]

/-- No value begins with a blank. -/
theorem skipBlanks_writtenAs (h : WrittenAs v text) (rest : List Char) : skipBlanks (text ++ rest) = text ++ rest := by
  have hhead : ∃ c more, text = c :: more ∧ c ≠ ' ' ∧ c ≠ '\t' := by
    cases h with
    | string s =>
      obtain ⟨c, more, hquoted, rfl | rfl⟩ := exists_cons_quoted s
      · exact ⟨_, more, hquoted, by decide⟩
      · exact ⟨_, more, hquoted, by decide⟩
    | @integer n =>
      obtain ⟨d, ds, hds⟩ := List.exists_cons_of_ne_nil (Digits.ofNat_ne_nil n)
      have hd : d.isDigit = true := Digits.isDigit_of_mem_ofNat n d (by rw [hds]; exact List.mem_cons_self)
      exact ⟨d, ds, hds, Digits.ne_of_isDigit hd (by decide), Digits.ne_of_isDigit hd (by decide)⟩
  obtain ⟨c, more, rfl, hspace, htab⟩ := hhead
  simp [skipBlanks, hspace, htab]

/-- A value is read up to the end of its line. -/
theorem value_writtenAs (h : WrittenAs v text) (n : Nat) (rest : List Char) :
    value (n + 1) (text ++ '\n' :: rest) = some (v, '\n' :: rest) := by
  cases h with
  | string s => exact value_quoted s (by simp) n
  | @integer m hm =>
    have hread := readWord_ofNat hm rest
    obtain ⟨d, ds, hds⟩ := List.exists_cons_of_ne_nil (Digits.ofNat_ne_nil m)
    have hd : d.isDigit = true := Digits.isDigit_of_mem_ofNat m d (by rw [hds]; exact List.mem_cons_self)
    -- a digit begins neither a text nor a list nor a table
    have hne : ∀ {e : Char}, e.isDigit = false → d ≠ e := Digits.ne_of_isDigit hd
    rw [hds, List.cons_append] at hread ⊢
    rw [value, if_neg (by simp [hne]), if_neg (hne (by decide)), if_neg (hne (by decide)), hread]

/-! ## Lines -/

/-- Whether a key can be written without quotes. -/
def isBare (key : String) : Bool := !key.toList.isEmpty && key.toList.all isKeyChar

theorem isKeyChar_of_mem (h : isBare key = true) : ∀ c ∈ key.toList, isKeyChar c = true :=
  List.all_eq_true.mp (Bool.and_eq_true_iff.mp h).2

/-- A bare key has at least one character. -/
theorem exists_cons_of_isBare (h : isBare key = true) : ∃ c more, key.toList = c :: more ∧ isKeyChar c = true := by
  cases hcs : key.toList with
  | nil =>
    rw [isBare, hcs] at h
    exact absurd h (by decide)
  | cons c more => exact ⟨c, more, rfl, isKeyChar_of_mem h c (by rw [hcs]; exact List.mem_cons_self)⟩

/-- The text of a document of bare keys, with a line for each. -/
inductive Lines : Entries → List Char → Prop where
  | nil : Lines [] []
  | cons {key : String} {v : Toml} {text rest : List Char} {entries : Entries} (hkey : isBare key = true)
      (hv : WrittenAs v text) (hrest : Lines entries rest) :
      Lines ((key, v) :: entries) (line key text ++ rest)

theorem ne_of_isKeyChar {d : Char} (hc : isKeyChar c = true) (hd : isKeyChar d = false) : c ≠ d := by
  rintro rfl
  rw [hc] at hd
  exact absurd hd (by simp)

theorem skipBlanks_keyChar (hc : isKeyChar c = true) (cs : List Char) : skipBlanks (c :: cs) = c :: cs := by
  have hspace : c ≠ ' ' := ne_of_isKeyChar hc (by decide)
  have htab : c ≠ '\t' := ne_of_isKeyChar hc (by decide)
  simp [skipBlanks, hspace, htab]

theorem nextLine?_keyChar (hc : isKeyChar c = true) (cs : List Char) : nextLine? (c :: cs) = none := by
  have hcomment : skipComment (c :: cs) = c :: cs := by
    unfold skipComment
    split
    · rename_i heq
      exact absurd (List.cons.inj heq).1 (ne_of_isKeyChar hc (by decide))
    · rfl
  rw [nextLine?, skipBlanks_keyChar hc, hcomment]
  exact lineEnd?_of_ne (ne_of_isKeyChar hc (by decide)) (ne_of_isKeyChar hc (by decide)) cs

/-- What begins with a character of keys is a definition. -/
theorem readLine_keyChar (hc : isKeyChar c = true) (draft : Draft) (cs : List Char) :
    readLine draft (c :: cs) = readDefinition draft (c :: cs) := by
  unfold readLine
  split
  · rename_i heq
    exact absurd (List.cons.inj heq).1 (ne_of_isKeyChar hc (by decide))
  · rename_i heq
    exact absurd (List.cons.inj heq).1 (ne_of_isKeyChar hc (by decide))
  · rfl

/-- A line begins with a character of its key. -/
theorem exists_cons_line (hkey : isBare key = true)
    (text rest : List Char) : ∃ c more, line key text ++ rest = c :: more ∧ isKeyChar c = true := by
  obtain ⟨c, more, hcs, hc⟩ := exists_cons_of_isBare hkey
  refine ⟨c, more ++ (" = ".toList ++ (text ++ '\n' :: rest)), ?_, hc⟩
  simp [line, hcs]

/-- A bare key is read up to the sign that follows it. -/
theorem readKey_line (hkey : isBare key = true) (n : Nat)
    (rest : List Char) : readKey (n + 1) (key.toList ++ ' ' :: '=' :: rest) = some ([key], '=' :: rest) := by
  have hall := isKeyChar_of_mem hkey
  have hspan : (key.toList ++ ' ' :: '=' :: rest).span isKeyChar = (key.toList, ' ' :: '=' :: rest) := by
    rw [List.span_eq_takeWhile_dropWhile, List.takeWhile_append_of_pos hall, List.dropWhile_append_of_pos hall]
    simp [show isKeyChar ' ' = false from by decide]
  have hsimple : readSimpleKey (key.toList ++ ' ' :: '=' :: rest) = some (key, ' ' :: '=' :: rest) := by
    obtain ⟨c, more, hcs, hc⟩ := exists_cons_of_isBare hkey
    have hquote : ¬(decide (c = '"') || decide (c = '\'')) = true := by
      simp [ne_of_isKeyChar hc (d := '"') (by decide), ne_of_isKeyChar hc (d := '\'') (by decide)]
    unfold readSimpleKey
    split
    · rename_i heq
      exact absurd heq (by simp)
    · rename_i d ds heq
      have hd : d = c := by
        rw [hcs] at heq
        exact (List.cons.inj heq).1.symm
      subst hd
      rw [if_neg hquote, hspan]
      dsimp only
      rw [if_neg (by simp [hcs]), String.ofList_toList]
  rw [readKey, hsimple]
  rfl

/-- A new key is added behind the entries that there are. -/
theorem define_new (hkey : entries.lookup key = none) (v : Toml) :
    define [key] v .header entries = some (entries ++ [(key, v)]) := by
  simp [define, changeAt, hkey]

/-- **A line adds its entry to the document.** -/
theorem readDefinition_line (hkey : isBare key = true)
    (hv : WrittenAs v text) (hnew : entries.lookup key = none) (rest : List Char) :
    readDefinition ⟨entries, []⟩ (line key text ++ rest) = some (⟨entries ++ [(key, v)], []⟩, '\n' :: rest) := by
  have hline : line key text ++ rest = key.toList ++ ' ' :: '=' :: (' ' :: (text ++ '\n' :: rest)) := by simp [line]
  have hblank : skipBlanks (' ' :: (text ++ '\n' :: rest)) = text ++ '\n' :: rest := skipBlanks_writtenAs hv _
  have hchange : changeAt .passed (define [key] v) [] .header entries = some (entries ++ [(key, v)]) :=
    define_new hnew v
  simp only [readDefinition, hline, readKey_line hkey, takeMark, Option.bind_eq_bind, Option.bind_some, if_true,
    hblank, value_writtenAs hv, hchange]
  rfl

/-- A line of a document is neither empty nor a header. -/
theorem readLines_line (hkey : isBare key = true)
    (hv : WrittenAs v text) (hnew : entries.lookup key = none) (n : Nat) (rest : List Char) :
    readLines (n + 1) ⟨entries, []⟩ (line key text ++ rest) = readLines n ⟨entries ++ [(key, v)], []⟩ rest := by
  have hread := readDefinition_line hkey hv hnew rest
  obtain ⟨c, more, hmore, hc⟩ := exists_cons_line hkey text rest
  rw [hmore] at hread ⊢
  have hblanks := skipBlanks_keyChar hc more
  have hend : nextLine? ('\n' :: rest) = some rest := rfl
  rw [readLines, nextLine?_keyChar hc, hblanks, readLine_keyChar hc, hread]
  · simp only [Option.bind_eq_bind, Option.bind_some, hend]
  · simp

/-- The lines of a document add their entries to those that there are. -/
theorem readLines_lines {more : Entries} (h : Lines more text)
    (hkeys : (entries.map Prod.fst ++ more.map Prod.fst).Nodup) :
    ∀ n, more.length ≤ n → readLines n ⟨entries, []⟩ text = some (entries ++ more) := by
  induction h generalizing entries with
  | nil =>
    intro n _
    rw [List.append_nil]
    cases n <;> rfl
  | @cons key v text rest more hkey hv _ ih =>
    intro n hn
    obtain ⟨m, rfl⟩ := Nat.exists_eq_add_one.mpr (Nat.zero_lt_of_lt hn)
    have hnew : entries.lookup key = none := by
      rw [List.lookup_eq_none_iff]
      rintro e he
      have hne : e.1 ≠ key := (List.nodup_append.mp hkeys).2.2 e.1 (List.mem_map_of_mem he) key List.mem_cons_self
      simpa using Ne.symm hne
    have hkeys' : ((entries ++ [(key, v)]).map Prod.fst ++ more.map Prod.fst).Nodup := by simpa using hkeys
    rw [readLines_line hkey hv hnew, ih hkeys' m (Nat.le_of_succ_le_succ hn), List.append_assoc]
    rfl

/-- Every definition has a line, so that there are enough steps for all of them. -/
theorem length_le_of_lines (h : Lines entries text) : entries.length ≤ text.length := by
  induction h with
  | nil => exact Nat.le_refl 0
  | cons _ _ _ ih =>
    simp only [List.length_cons, List.length_append, line]
    omega

/-- **A document of lines with distinct keys is read back.** -/
theorem ofText?_lines (h : Lines entries text) (hkeys : (entries.map Prod.fst).Nodup) :
    ofText? (String.ofList text) = some entries := by
  have hread : readLines (text.length + 1) {} text = some ([] ++ entries) :=
    readLines_lines h (by simpa using hkeys) _ (Nat.le_succ_of_le (length_le_of_lines h))
  have hmark : ∀ more, text ≠ '\uFEFF' :: more := by
    rintro more rfl
    generalize htext : '\uFEFF' :: more = text at h
    cases h with
    | nil => contradiction
    | cons hkey hv hrest =>
      obtain ⟨c, more, hmore, hc⟩ := exists_cons_line hkey _ _
      rw [hmore] at htext
      exact ne_of_isKeyChar hc (d := '\uFEFF') (by decide) (List.cons.inj htext).1.symm
  rw [ofText?, String.toList_ofList]
  split
  · exact absurd rfl (hmark _)
  · exact hread

end Toml
end TableSpec
