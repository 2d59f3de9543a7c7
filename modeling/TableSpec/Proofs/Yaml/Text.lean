import TableSpec.Proofs.Yaml.Blocks

/-!
# `Proofs.Yaml.Text` — the text of a document

A reader refuses texts with characters that may not stand in a document, and passes over a mark of byte order.
Neither happens to a text that was written: in every style only printable characters are written
(`printable_textLine`), and the marks and spaces around them are printable as well.

With the values read one by one this gives the whole text: a mapping is read from it as it was.

## Contents
- `Printable`; `printable_textLine`, `printable_canonical`.
- `parse?_print`, `decode_print`.
-/

namespace TableSpec
namespace Yaml

/-! ## What is written can be printed -/

/-- A text of characters that may stand in a document. -/
def Printable (cs : List Char) : Prop := ∀ c ∈ cs, isPrintable c = true

/-- Whether a written mark is printable can be computed. -/
theorem printable_of_all {cs : List Char} (h : cs.all isPrintable = true) : Printable cs := List.all_eq_true.mp h

theorem printable_nil : Printable [] := fun _ hc => by cases hc

theorem printable_cons {c : Char} {cs : List Char} : Printable (c :: cs) ↔ isPrintable c = true ∧ Printable cs :=
  List.forall_mem_cons

theorem printable_append {xs ys : List Char} : Printable (xs ++ ys) ↔ Printable xs ∧ Printable ys :=
  List.forall_mem_append

theorem printable_spaces (n : Nat) : Printable (spaces n) := by
  intro c hc
  rw [mem_spaces hc]
  decide

/-- Between single quotes only quotes and indentation are added to a text. -/
theorem printable_singleQuoted {cs : List Char} (h : Printable cs) (indent : Nat) :
    Printable (singleQuoted indent cs) := by
  refine printable_cons.mpr ⟨by decide, printable_append.mpr ⟨?_, printable_of_all rfl⟩⟩
  intro c hc
  rcases mem_singleQuotedBody hc with hc | rfl | rfl
  · exact h c hc
  · decide
  · decide

/-- Between double quotes any text is printable. -/
theorem printable_doubleQuoted (cs : List Char) : Printable (doubleQuoted cs) := by
  refine printable_cons.mpr ⟨by decide, printable_append.mpr ⟨?_, printable_of_all rfl⟩⟩
  intro c hc
  obtain ⟨d, -, hc⟩ := List.mem_flatMap.mp hc
  exact (isLineChar_iff.mp (isLineChar_escapeChar d c hc)).1

/-- In the body of a block nothing but indentation is added. -/
theorem printable_literalBody {cs : List Char} (h : Printable cs) (indent : Nat) (afterBreak : Bool) :
    Printable (literalBody indent afterBreak cs) := by
  induction cs generalizing afterBreak with
  | nil => exact printable_nil
  | cons c rest ih =>
    obtain ⟨hc, hrest⟩ := printable_cons.mp h
    rw [literalBody]
    refine printable_append.mpr ⟨?_, printable_cons.mpr ⟨hc, ih hrest _⟩⟩
    split
    · exact printable_spaces indent
    · exact printable_nil

/-- One of the three marks stands for how a text ends. -/
theorem exists_chompingMark (cs : List Char) : ∃ mode, chomping cs = chompingMark mode := by
  unfold chomping
  split
  · exact ⟨.strip, rfl⟩
  · split
    · exact ⟨.strip, rfl⟩
    · split
      · exact ⟨.keep, rfl⟩
      · split
        · exact ⟨.keep, rfl⟩
        · exact ⟨.clip, rfl⟩

theorem printable_header (hinted : Bool) (mode : Chomping) : Printable (hint hinted ++ chompingMark mode) := by
  cases hinted <;> cases mode <;> exact printable_of_all rfl

/-- A block is printable with its header. -/
theorem printable_literal {cs : List Char} (h : Printable cs) (indent : Nat) : Printable (literal indent cs) := by
  have hliteral : literal indent cs = '|' :: (hint (cs.head?.any (fun c => c == ' ' || isBreak c)) ++ chomping cs ++
      '\n' :: literalBody indent true cs ++ ending cs) := rfl
  obtain ⟨mode, hmode⟩ := exists_chompingMark cs
  have hending : Printable (ending cs) := by
    unfold ending
    split
    · exact printable_nil
    · exact printable_of_all rfl
  have hbody : Printable ('\n' :: literalBody indent true cs) :=
    printable_cons.mpr ⟨by decide, printable_literalBody h indent true⟩
  rw [hliteral, hmode]
  exact printable_cons.mpr ⟨by decide, printable_append.mpr
    ⟨printable_append.mpr ⟨printable_header _ mode, hbody⟩, hending⟩⟩

/-- **A text is printable in its style**, whatever its characters are. -/
theorem printable_textLine (indent : Nat) (s : String) : Printable (textLine indent s) := by
  have hbreak : Printable ['\n'] := printable_of_all rfl
  rcases style_cases s with ⟨hstyle, -, hplain⟩ | ⟨hstyle, hsingle⟩ | hstyle | ⟨hstyle, -, hprintable⟩
  · rw [textLine, hstyle]
    exact printable_append.mpr ⟨hplain.printable, hbreak⟩
  · rw [textLine, hstyle]
    exact printable_append.mpr ⟨printable_singleQuoted hsingle.printable indent, hbreak⟩
  · rw [textLine, hstyle]
    exact printable_append.mpr ⟨printable_doubleQuoted s.toList, hbreak⟩
  · rw [textLine, hstyle]
    exact printable_literal hprintable indent

/-- A simple key is printable: whatever is not has an escape in it. -/
theorem printable_simpleKey {s : String} {written : List Char} (h : simpleKey? (text s) = some written) :
    Printable written := by
  rw [simpleKey?] at h
  split at h
  · cases h
  have hdouble := printable_doubleQuoted s.toList
  rcases style_cases s with ⟨hstyle, -, hplain⟩ | ⟨hstyle, hsingle⟩ | hstyle | ⟨hstyle, -⟩
  -- a key has no literal style: it is written between double quotes then
  · rw [hstyle] at h
    exact Option.some.inj h ▸ hplain.printable
  · rw [hstyle] at h
    exact Option.some.inj h ▸ printable_singleQuoted hsingle.printable 0
  · rw [hstyle] at h
    exact Option.some.inj h ▸ hdouble
  · rw [hstyle] at h
    exact Option.some.inj h ▸ hdouble

/-- A scalar of a catalog without quotes is a number, a truth value or null. -/
theorem printable_plain {s : String} (h : Canonical (plain s)) : Printable (s.toList ++ ['\n']) := by
  have hbreak : Printable ['\n'] := printable_of_all rfl
  exact printable_append.mpr ⟨(plainText_of_canonical h).1.printable, hbreak⟩

/-! ## Collections -/

/-- What is written for a value behind a mark and behind a key is printable. -/
def PrintableValue (d : Yaml) : Prop :=
  ∀ context, Printable (afterMark context d) ∧ Printable (afterKey context d)

/-- What is written on one line, behind a dash as behind a key, is printable when the line is. -/
theorem printableValue_line {d : Yaml} (h : ∀ context, ∃ written, Printable written ∧
    afterMark context d = ' ' :: written ∧ afterKey context d = ' ' :: written) : PrintableValue d := by
  intro context
  obtain ⟨written, hwritten, hmark, hkey⟩ := h context
  rw [hmark, hkey]
  have hline : Printable (' ' :: written) := printable_cons.mpr ⟨by decide, hwritten⟩
  exact ⟨hline, hline⟩

/-- The lines of a sequence are those of its items, with dashes and indentation. -/
theorem printable_itemLines {items : List Yaml} (h : ∀ d ∈ items, PrintableValue d) {lead : List Char}
    (hlead : Printable lead) (column : Nat) : Printable (itemLines lead column items) := by
  induction items generalizing lead with
  | nil =>
    rw [itemLines]
    exact printable_nil
  | cons item rest ih =>
    obtain ⟨hitem, hrest⟩ := List.forall_mem_cons.mp h
    rw [itemLines]
    have hfollowing := ih hrest (printable_spaces column)
    exact printable_append.mpr ⟨hlead, printable_cons.mpr ⟨by decide,
      printable_append.mpr ⟨(hitem column).1, hfollowing⟩⟩⟩

theorem printableValue_text (s : String) : PrintableValue (text s) :=
  printableValue_line fun context =>
    ⟨textLine (context + 2) s, printable_textLine _ s, by rw [afterMark], by rw [afterKey]⟩

/-- An entry is its key, a colon and its value, or a key with a mark in front. -/
theorem printable_entryLine (column : Nat) (s : String) {value : Yaml} (h : PrintableValue value) :
    Printable (entryLine column (text s) value) := by
  obtain ⟨hmark, hkey⟩ := h column
  cases hsimple : simpleKey? (text s) with
  | some written =>
    rw [entryLine_simple hsimple]
    exact printable_append.mpr ⟨printable_simpleKey hsimple, printable_cons.mpr ⟨by decide, hkey⟩⟩
  | none =>
    rw [entryLine_marked hsimple]
    exact printable_cons.mpr ⟨by decide, printable_append.mpr ⟨(printableValue_text s column).1,
      printable_append.mpr ⟨printable_spaces column, printable_cons.mpr ⟨by decide, hmark⟩⟩⟩⟩

/-- The lines of a mapping are those of its entries. -/
theorem printable_entryLines {entries : List (String × Yaml)} (h : ∀ e ∈ entries, PrintableValue e.2)
    {lead : List Char} (hlead : Printable lead) (column : Nat) :
    Printable (entryLines lead column (entries.map (fun e => (text e.1, e.2)))) := by
  induction entries generalizing lead with
  | nil =>
    rw [List.map_nil, entryLines]
    exact printable_nil
  | cons entry rest ih =>
    obtain ⟨hentry, hrest⟩ := List.forall_mem_cons.mp h
    rw [List.map_cons, entryLines_cons]
    have hline := printable_entryLine column entry.1 hentry
    exact printable_append.mpr ⟨printable_append.mpr ⟨hlead, hline⟩, ih hrest (printable_spaces column)⟩

/-- **Everything that is written is printable.** -/
theorem printable_canonical {d : Yaml} (h : Canonical d) : PrintableValue d := by
  have hplain : ∀ {s}, Canonical (plain s) → PrintableValue (plain s) := fun {s} hs =>
    printableValue_line fun context =>
      ⟨s.toList ++ ['\n'], printable_plain hs, by rw [afterMark], by rw [afterKey]⟩
  induction h with
  | text s => exact printableValue_text s
  | flag b => exact hplain (.flag b)
  | null => exact hplain .null
  | count hn => exact hplain (.count hn)
  | @sequence items _ ih =>
    cases items with
    | nil =>
      refine printableValue_line fun context => ⟨['[', ']', '\n'], printable_of_all rfl, ?_, ?_⟩
      · rw [afterMark]
        rfl
      · rw [afterKey]
        rfl
    | cons item rest =>
      intro context
      rw [afterMark, afterKey]
      have hfirst := printable_itemLines ih printable_nil (context + 2)
      have hbelow := printable_itemLines ih (printable_spaces context) context
      exact ⟨printable_cons.mpr ⟨by decide, hfirst⟩, printable_cons.mpr ⟨by decide, hbelow⟩⟩
  | @mapping entries _ ih =>
    cases entries with
    | nil =>
      refine printableValue_line fun context => ⟨['\x7b', '\x7d', '\n'], printable_of_all rfl, ?_, ?_⟩
      · rw [List.map_nil, afterMark]
      · rw [List.map_nil, afterKey]
    | cons entry rest =>
      intro context
      have hfirst := printable_entryLines ih printable_nil (context + 2)
      have hbelow := printable_entryLines ih (printable_spaces (context + 2)) (context + 2)
      rw [List.map_cons] at hfirst hbelow ⊢
      rw [afterMark, afterKey]
      exact ⟨printable_cons.mpr ⟨by decide, hfirst⟩, printable_cons.mpr ⟨by decide, hbelow⟩⟩

/-! ## Documents -/

/-- The keys of a mapping are texts. -/
theorem exists_of_canonical_mapping {es : List (Yaml × Yaml)} (h : Canonical (mapping es)) :
    ∃ entries : List (String × Yaml), es = entries.map (fun e => (text e.1, e.2)) ∧
      ∀ e ∈ entries, Canonical e.2 := by
  cases h with
  | mapping hentries => exact ⟨_, rfl, hentries⟩

/-- A document that begins with an entry has nothing in front of it. -/
theorem documentStart_entryLines (entry : String × Yaml) (rest : List (String × Yaml)) :
    documentStart (number 0 (entryLines [] 0 ((entry :: rest).map (fun e => (text e.1, e.2))))) =
      number 0 (entryLines [] 0 ((entry :: rest).map (fun e => (text e.1, e.2)))) := by
  obtain ⟨more, hmore⟩ := exists_entryLines 0 entry rest []
  obtain ⟨-, -, hahead⟩ := entryAhead_entryLine 0 entry.1 entry.2 more 0
  rw [List.append_nil] at hmore
  rw [hmore, documentStart, hahead.noBoundary]
  rfl

/-- **A mapping is read from its text.** -/
theorem parse?_print {entries : List (Yaml × Yaml)} (hmapping : Canonical (mapping entries)) :
    parse? (print (mapping entries)) = some (mapping entries) := by
  obtain ⟨entries, rfl, h⟩ := exists_of_canonical_mapping hmapping
  cases entries with
  | nil =>
    -- a mapping without entries is written in braces, and so it is no entry but a value on its line
    have hnode : blockNode 8 0 (number 0 ['\x7b', '\x7d', '\n']) = some (mapping [], []) := by
      rw [blockNode_number (Nat.le_refl 0) (List.cons_ne_nil _ _) (boundaryAhead_of_ne (by decide) (by decide) 0 _)]
      rfl
    show parse? (String.ofList ['\x7b', '\x7d', '\n']) = some (mapping [])
    rw [parse?, String.toList_ofList]
    show (blockNode 8 0 (number 0 ['\x7b', '\x7d', '\n']) >>= _) = _
    rw [hnode]
    rfl
  | cons entry rest =>
    let cs := entryLines [] 0 ((entry :: rest).map (fun e => (text e.1, e.2)))
    have hprint : print (mapping ((entry :: rest).map (fun e => (text e.1, e.2)))) = String.ofList cs := rfl
    have hprintable : Printable cs :=
      printable_entryLines (fun e he => printable_canonical (h e he)) printable_nil 0
    have hsolid : Solid cs := by
      have := solid_entryLines 0 entry rest []
      rwa [List.append_nil] at this
    have hstart : documentStart (number 0 cs) = number 0 cs := documentStart_entryLines entry rest
    have hcontent : nextContent ((number 0 cs).length + 1) (number 0 cs) = number 0 cs :=
      nextContent_number hsolid _ 0
    -- the reader's bound is twice the length of the text, which is what the entries need
    have hfuel : 2 * (cs ++ ([] : List Char)).length + 1 ≤ 2 * (number 0 cs).length + 1 := by simp
    have hentries := @blockEntries_number 0 0 (Nat.le_refl 0) [] solid_nil (Or.inr rfl) (entry :: rest)
      (fun e he => reads_canonical (h e he)) (List.cons_ne_nil _ _) (2 * (number 0 cs).length + 1) hfuel
    have hnode := @blockNode_entries 0 0 (Nat.le_refl 0) (2 * (number 0 cs).length + 1) entry rest []
    have hspaces : spaces 0 ++ ([] : List Char) = [] := rfl
    rw [hspaces] at hentries
    rw [hentries, List.append_nil] at hnode
    have hnode : blockNode (2 * (number 0 cs).length + 2) 0 (number 0 cs) =
        some (mapping ((entry :: rest).map (fun e => (text e.1, e.2))), []) := hnode
    rw [parse?, hprint, String.toList_ofList, spots?_printable hprintable]
    simp only [Option.bind_eq_bind, Option.bind_some, hcontent, hstart, hnode]
    rfl

/-- What is read of the text of a mapping is what is read of the mapping. -/
theorem decode_print {α : Type} (read : Yaml → Except Error α) {entries : List (Yaml × Yaml)}
    (h : Canonical (mapping entries)) : decode read (print (mapping entries)) = read (mapping entries) := by
  rw [decode, parse?_print h]

end Yaml
end TableSpec
