import TableSpec.Proofs.Yaml.Line

/-!
# `Proofs.Yaml.Blocks` — values below each other

The columns at which lines begin say where a collection ends. After the lines of a value there come some
spaces, and then solid content at column `j`. For what stands behind a mark at column `context`, `j` is at most
`context`: the content belongs to the same collection or to one around it. Behind a key there is one exception.
A sequence may be as far out as the key that it belongs to, so content at that very column must not be another
item.

`ReadsMarked` and `ReadsKeyed` say this of one value. Items and entries are read one by one from it
(`blockItems_number`, `blockEntries_number`), and by induction on values all of them are read
(`reads_canonical`).

The fuel that a reader needs is twice the length of the text in front: the readers of a node and of its parts
alternate, and every part begins behind a character of its own.

## Contents
- `markedNode_line`, `keyedNode_line`: values on the rest of a line.
- `ReadsMarked`, `ReadsKeyed`.
- `blockItems_number`, `blockEntries_step`, `blockEntries_number`.
- `reads_canonical`.
-/

namespace TableSpec
namespace Yaml

/-! ## Nodes -/

/-- A node that is far enough in is what its front says. -/
theorem blockNode_number {low column : Nat} (hlow : low ≤ column) {cs : List Char} (hne : cs ≠ [])
    (hboundary : boundaryAhead (number column cs) = false) (n : Nat) :
    blockNode (n + 1) low (number column cs) =
      if markAhead '-' (number column cs) then
        (blockItems n column (number column cs)).map (fun r => (sequence r.1, r.2))
      else if markAhead '?' (number column cs) || (simpleKey (number column cs)).isSome then
        (blockEntries n column (number column cs)).map (fun r => (mapping r.1, r.2))
      else inlineNode low (number column cs) := by
  obtain ⟨c, rest, rfl⟩ := List.exists_cons_of_ne_nil hne
  have hin : ¬column < low := by omega
  rw [number] at hboundary ⊢
  rw [blockNode]
  simp [hboundary, hin]

/-- What follows a mark on its line is a node. -/
theorem markedNode_space {cs : List Char} (hne : cs ≠ []) (hsolid : Solid cs) (context k n : Nat) :
    markedNode (n + 1) context (number k (' ' :: cs)) = blockNode n (context + 1) (number (k + 1) cs) := by
  obtain ⟨c, rest, rfl⟩ := List.exists_cons_of_ne_nil hne
  rw [markedNode, onLine?_space (hsolid c rfl)]

/-- What follows a key on its line is a value on that line. -/
theorem keyedNode_space {cs : List Char} (hne : cs ≠ []) (hsolid : Solid cs) (context k n : Nat) :
    keyedNode (n + 1) context (number k (' ' :: cs)) = inlineNode (context + 1) (number (k + 1) cs) := by
  obtain ⟨c, rest, rfl⟩ := List.exists_cons_of_ne_nil hne
  rw [keyedNode, onLine?_space (hsolid c rfl)]

/-- What follows a key below its line is a node; it is a sequence when it is an item at the column of the key. -/
theorem keyedNode_break {cs : List Char} (hsolid : Solid cs) (context j k n : Nat) :
    keyedNode (n + 1) context (number k ('\n' :: (spaces j ++ cs))) =
      if (number j cs).head?.any (fun t => t.column == context) && markAhead '-' (number j cs) &&
          !boundaryAhead (number j cs) then
        (blockItems n context (number j cs)).map (fun r => (sequence r.1, r.2))
      else blockNode n (context + 1) (number j cs) := by
  rw [keyedNode, onLine?_break, belowLine_number hsolid]

/-! ## Values on the rest of a line -/

/-- A value behind a mark is read from its line. -/
theorem markedNode_line {context : Nat} {written : List Char} {d : Yaml} (h : ReadsLine context written d)
    {j : Nat} (hj : j ≤ context) {content : List Char} (hcontent : Solid content) {k : Nat} (hk : context ≤ k)
    (n : Nat) : markedNode (n + 2) context (number k (' ' :: (written ++ (spaces j ++ content)))) =
      some (d, number j content) := by
  -- what is on the line is no end of a document, no item and no entry, so the reader takes it for a leaf
  have hne : written ++ (spaces j ++ content) ≠ [] := List.append_ne_nil_of_left_ne_nil h.ne_nil _
  have hboundary := boundaryAhead_of_pos (Nat.succ_pos k) (written ++ (spaces j ++ content))
  have hdash := h.noMark (Or.inl rfl) (k + 1) (spaces j ++ content)
  have hquestion := h.noMark (Or.inr rfl) (k + 1) (spaces j ++ content)
  have hkey := h.noKey (k + 1) (spaces j ++ content)
  rw [markedNode_space hne (h.solid_append _), blockNode_number (Nat.succ_le_succ hk) hne hboundary, hdash, hquestion,
    hkey]
  exact h.reads hj hcontent (k + 1)

/-- A value behind a key is read from its line. -/
theorem keyedNode_line {context : Nat} {written : List Char} {d : Yaml} (h : ReadsLine context written d)
    {j : Nat} (hj : j ≤ context) {content : List Char} (hcontent : Solid content) (k n : Nat) :
    keyedNode (n + 1) context (number k (' ' :: (written ++ (spaces j ++ content)))) =
      some (d, number j content) := by
  have hne : written ++ (spaces j ++ content) ≠ [] := List.append_ne_nil_of_left_ne_nil h.ne_nil _
  rw [keyedNode_space hne (h.solid_append _)]
  exact h.reads hj hcontent (k + 1)

/-! ## What is read of one value -/

/-- A value behind a mark at column `context` is read, up to content that is not further in. -/
def ReadsMarked (d : Yaml) : Prop :=
  ∀ {context j : Nat} {content : List Char} {n : Nat}, j ≤ context → Solid content →
    2 * (afterMark context d ++ (spaces j ++ content)).length + 1 ≤ n →
    markedNode n context (number (context + 1) (afterMark context d ++ (spaces j ++ content))) =
      some (d, number j content)

/-- A value behind a key at column `context` is read, up to content that is not further in and is no item at
    that column. -/
def ReadsKeyed (d : Yaml) : Prop :=
  ∀ {context j : Nat} {content : List Char} {n : Nat}, j ≤ context →
    (j = context → markAhead '-' (number j content) = false) → Solid content →
    2 * (afterKey context d ++ (spaces j ++ content)).length + 1 ≤ n → ∀ k,
    keyedNode n context (number k (afterKey context d ++ (spaces j ++ content))) = some (d, number j content)

/-- Behind a mark there is a space. -/
theorem exists_afterMark (context : Nat) (d : Yaml) : ∃ cs, afterMark context d = ' ' :: cs := by
  rcases d with s | s | (_ | ⟨item, rest⟩) | (_ | ⟨entry, rest⟩)
  all_goals
    rw [afterMark]
    exact ⟨_, rfl⟩

/-- Behind a dash there is always a gap. -/
theorem atGap_afterMark (context : Nat) (d : Yaml) (tail : List Char) :
    atGap (afterMark context d ++ tail) = true := by
  obtain ⟨cs, hcs⟩ := exists_afterMark context d
  rw [hcs]
  rfl

/-- Behind the colon of a key there is a space or the end of the line. -/
theorem atGap_afterKey (context : Nat) (d : Yaml) (tail : List Char) :
    atGap (afterKey context d ++ tail) = true := by
  rcases d with s | s | (_ | ⟨item, rest⟩) | (_ | ⟨entry, rest⟩)
  all_goals rw [afterKey]; rfl

/-- What is written behind a mark or a key on the rest of its line is read in both places. -/
theorem reads_line {d : Yaml} (h : ∀ context, ∃ written, ReadsLine context written d ∧
    afterMark context d = ' ' :: written ∧ afterKey context d = ' ' :: written) : ReadsMarked d ∧ ReadsKeyed d := by
  constructor
  · intro context j content n hj hcontent hn
    obtain ⟨written, hread, hmark, -⟩ := h context
    rw [hmark] at hn ⊢
    obtain ⟨n, rfl⟩ : ∃ m, n = m + 2 := ⟨n - 2, by
      rw [List.cons_append, List.length_cons] at hn
      omega⟩
    exact markedNode_line hread hj hcontent (Nat.le_succ context) n
  · intro context j content n hj _ hcontent hn k
    obtain ⟨written, hread, -, hkey⟩ := h context
    rw [hkey]
    obtain ⟨n, rfl⟩ : ∃ m, n = m + 1 := ⟨n - 1, by omega⟩
    exact keyedNode_line hread hj hcontent k n

/-! ## Items -/

/-- The indentation of a sequence comes before its first dash. -/
theorem itemLines_spaces (column : Nat) (item : Yaml) (rest : List Yaml) :
    itemLines (spaces column) column (item :: rest) = spaces column ++ itemLines [] column (item :: rest) := by
  rw [itemLines, itemLines, List.nil_append]

/-- In front of an item there is no end of a document. -/
theorem boundaryAhead_item (k : Nat) (cs : List Char) : boundaryAhead (number k ('-' :: ' ' :: cs)) = false := by
  have hchars : chars ((number k ('-' :: ' ' :: cs)).take 3) = '-' :: ' ' :: cs.take 1 := by
    rw [chars, List.map_take, ← chars, chars_number]
    rfl
  simp [boundaryAhead, hchars]

/-- Content that is not further in and is no item ends the items. -/
theorem blockItems_end {column j : Nat} (hj : j ≤ column) {content : List Char}
    (hend : j = column → markAhead '-' (number j content) = false) (n : Nat) :
    blockItems (n + 1) column (number j content) = some ([], number j content) := by
  rw [blockItems]
  cases content with
  | nil => rfl
  | cons c rest =>
    have hin : ¬column < j := by omega
    -- at the column itself it is the missing dash that ends the items, and further out the column
    by_cases heq : j = column
    · have hdash := hend heq
      rw [number] at hdash ⊢
      simp [hdash, hin]
    · simp [number, hin, heq]

/-- One item, with what follows it. -/
theorem blockItems_step {column : Nat} {item : Yaml} (hitem : ReadsMarked item) {j : Nat} (hj : j ≤ column)
    {content : List Char} (hcontent : Solid content) {n : Nat}
    (hn : 2 * (afterMark column item ++ (spaces j ++ content)).length + 1 ≤ n) :
    blockItems (n + 1) column (number column ('-' :: (afterMark column item ++ (spaces j ++ content)))) =
      (blockItems n column (number j content)).map (fun r => (item :: r.1, r.2)) := by
  have hread := hitem hj hcontent hn
  obtain ⟨written, hmark⟩ := exists_afterMark column item
  have hdash : markAhead '-' (number column ('-' :: (afterMark column item ++ (spaces j ++ content)))) = true := by
    rw [hmark, markAhead_number]
    rfl
  have hboundary : boundaryAhead (number column ('-' :: (afterMark column item ++ (spaces j ++ content)))) =
      false := by
    rw [hmark]
    exact boundaryAhead_item column _
  rw [number_line (by decide)] at hdash hboundary ⊢
  rw [blockItems, if_pos (by simp [hdash, hboundary]), List.tail_cons, hread]
  simp only [Option.bind_eq_bind, Option.bind_some]
  cases blockItems n column (number j content) with
  | none => rfl
  | some r => rfl

/-- **Items are read one by one**, up to content that is not further in and is no item. -/
theorem blockItems_number {column j : Nat} (hj : j ≤ column) {content : List Char} (hcontent : Solid content)
    (hend : j = column → markAhead '-' (number j content) = false) {items : List Yaml}
    (hitems : ∀ d ∈ items, ReadsMarked d) (hne : items ≠ []) {n : Nat}
    (hn : 2 * (itemLines [] column items ++ (spaces j ++ content)).length + 1 ≤ n) :
    blockItems n column (number column (itemLines [] column items ++ (spaces j ++ content))) =
      some (items, number j content) := by
  induction items generalizing n with
  | nil => exact absurd rfl hne
  | cons item rest ih =>
    obtain ⟨n, rfl⟩ : ∃ m, n = m + 1 := ⟨n - 1, by omega⟩
    obtain ⟨hitem, hrest⟩ := List.forall_mem_cons.mp hitems
    cases rest with
    | nil =>
      have htext : itemLines [] column [item] ++ (spaces j ++ content) =
          '-' :: (afterMark column item ++ (spaces j ++ content)) := by
        rw [itemLines, itemLines, List.append_nil, List.nil_append, List.cons_append]
      rw [htext, List.length_cons] at hn
      obtain ⟨m, rfl⟩ : ∃ m, n = m + 1 := ⟨n - 1, by omega⟩
      rw [htext, blockItems_step hitem hj hcontent (by omega), blockItems_end hj hend]
      rfl
    | cons next more =>
      -- behind the first item comes the dash of the next one, at the same column
      let following := itemLines [] column (next :: more) ++ (spaces j ++ content)
      have htext : itemLines [] column (item :: next :: more) ++ (spaces j ++ content) =
          '-' :: (afterMark column item ++ (spaces column ++ following)) := by
        rw [itemLines, itemLines_spaces]
        simp [following]
      have hsolid : Solid following := by
        have : following = '-' :: (afterMark column next ++ itemLines (spaces column) column more ++
            (spaces j ++ content)) := by
          simp [following, itemLines]
        rw [this]
        exact solid_cons (by decide)
      rw [htext, List.length_cons] at hn
      have hfollowing := ih hrest (List.cons_ne_nil next more) (n := n) (by
        rw [List.length_append, List.length_append] at hn
        show 2 * following.length + 1 ≤ n
        omega)
      rw [htext, blockItems_step hitem (Nat.le_refl column) hsolid (by omega)]
      show Option.map _ (blockItems n column (number column following)) = _
      rw [hfollowing]
      rfl

/-! ## Entries -/

/-- An entry as it is written at column `column`. -/
def entryLine (column : Nat) (key value : Yaml) : List Char :=
  match simpleKey? key with
  | some written => written ++ ':' :: afterKey column value
  | none => '?' :: (afterMark column key ++ spaces column ++ ':' :: afterMark column value)

/-- Only the first entry may stand behind something else on its line. -/
theorem entryLines_cons (lead : List Char) (column : Nat) (key value : Yaml) (rest : List (Yaml × Yaml)) :
    entryLines lead column ((key, value) :: rest) =
      lead ++ entryLine column key value ++ entryLines (spaces column) column rest := by
  rw [entryLines]
  rfl

theorem entryLines_spaces (column : Nat) (entry : Yaml × Yaml) (rest : List (Yaml × Yaml)) :
    entryLines (spaces column) column (entry :: rest) =
      spaces column ++ entryLines [] column (entry :: rest) := by
  rw [entryLines_cons, entryLines_cons, List.nil_append, List.append_assoc]

/-- An entry with a simple key is the key, a colon and the value. -/
theorem entryLine_simple {s : String} {written : List Char} (h : simpleKey? (text s) = some written)
    (column : Nat) (value : Yaml) :
    entryLine column (text s) value = written ++ ':' :: afterKey column value := by
  rw [entryLine, h]

/-- A key that is not simple has a mark in front, and its value a line of its own. -/
theorem entryLine_marked {s : String} (h : simpleKey? (text s) = none) (column : Nat) (value : Yaml) :
    entryLine column (text s) value =
      '?' :: (afterMark column (text s) ++ (spaces column ++ ':' :: afterMark column value)) := by
  rw [entryLine, h, List.append_assoc]

/-- What is in front where an entry begins. -/
structure EntryAhead (ts : List Spot) : Prop where
  noItem : markAhead '-' ts = false
  noBoundary : boundaryAhead ts = false
  key : (markAhead '?' ts || (simpleKey ts).isSome) = true

/-- An entry is taken for an entry and nothing else. -/
theorem entryAhead_entryLine (column : Nat) (s : String) (value : Yaml) (tail : List Char) (k : Nat) :
    Solid (entryLine column (text s) value ++ tail) ∧ entryLine column (text s) value ≠ [] ∧
      EntryAhead (number k (entryLine column (text s) value ++ tail)) := by
  cases h : simpleKey? (text s) with
  -- a simple key on one line with its colon
  | some written =>
    have hkey := readsKey_text h
    obtain ⟨k', hread⟩ := hkey.reads (atGap_afterKey column value tail) k
    have hassoc : entryLine column (text s) value ++ tail = written ++ ':' :: (afterKey column value ++ tail) := by
      rw [entryLine_simple h]
      simp
    rw [hassoc]
    refine ⟨?_, ?_, hkey.noMark (Or.inl rfl) k _, hkey.noBoundary k _, ?_⟩
    · obtain ⟨c, rest, rfl⟩ := List.exists_cons_of_ne_nil hkey.ne_nil
      exact solid_cons (hkey.solid c rfl)
    · rw [entryLine_simple h]
      simp
    · rw [hread, Option.isSome_some, Bool.or_true]
  | none =>
    obtain ⟨cs, hmark⟩ := exists_afterMark column (text s)
    rw [entryLine_marked h, hmark]
    refine ⟨solid_cons (by decide), List.cons_ne_nil _ _, not_markAhead_of_ne (by decide) k _,
      boundaryAhead_of_ne (by decide) (by decide) k _, ?_⟩
    rw [List.cons_append, markAhead_number]
    rfl

/-- Where something begins at the column of the entries, and no document ends, the entries go on. -/
theorem entries_go_on {column : Nat} {cs : List Char} (hne : cs ≠ [])
    (hboundary : boundaryAhead (number column cs) = false) :
    ¬(number column cs).head?.any (fun t => decide (column < t.column)) = true ∧
      ¬((number column cs).isEmpty || (number column cs).head?.any (fun t => decide (t.column < column)) ||
        boundaryAhead (number column cs)) = true := by
  obtain ⟨c, rest, rfl⟩ := List.exists_cons_of_ne_nil hne
  rw [hboundary]
  simp [number]

/-- An entry whose key is simple. -/
theorem blockEntries_simple {column : Nat} {cs : List Char} (hne : cs ≠ [])
    (hboundary : boundaryAhead (number column cs) = false) (hquestion : markAhead '?' (number column cs) = false)
    {n : Nat} {key value : Yaml} {afterColon rest : List Spot}
    (hkey : simpleKey (number column cs) = some (key, afterColon))
    (hvalue : keyedNode n column afterColon = some (value, rest)) :
    blockEntries (n + 1) column (number column cs) =
      (blockEntries n column rest).map (fun r => ((key, value) :: r.1, r.2)) := by
  obtain ⟨hin, hout⟩ := entries_go_on hne hboundary
  rw [blockEntries, if_neg hin, if_neg hout, hquestion]
  simp only [Bool.false_eq_true, if_false, hkey, hvalue, Option.bind_eq_bind, Option.bind_some]
  cases blockEntries n column rest with
  | none => rfl
  | some r => rfl

/-- An entry whose key and value stand behind marks of their own. -/
theorem blockEntries_marked {column : Nat} {cs ds : List Char} (hcs : atGap cs = true) (hds : atGap ds = true)
    {n : Nat} {key value : Yaml} {rest : List Spot}
    (hkey : markedNode n column (number (column + 1) cs) = some (key, number column (':' :: ds)))
    (hvalue : markedNode n column (number (column + 1) ds) = some (value, rest)) :
    blockEntries (n + 1) column (number column ('?' :: cs)) =
      (blockEntries n column rest).map (fun r => ((key, value) :: r.1, r.2)) := by
  have hboundary := boundaryAhead_of_ne (c := '?') (by decide) (by decide) column cs
  obtain ⟨hin, hout⟩ := entries_go_on (List.cons_ne_nil '?' cs) hboundary
  have hquestion : markAhead '?' (number column ('?' :: cs)) = true := by
    rw [markAhead_number, hcs]
    rfl
  have hcolon : ((number column (':' :: ds)).head?.any (fun t => t.column == column) &&
      markAhead ':' (number column (':' :: ds))) = true := by
    rw [markAhead_number, hds]
    simp [number]
  -- a mark is one character, so what is behind it begins one column further in
  have htail : ∀ {c : Char}, isBreak c = false → ∀ es, (number column (c :: es)).tail = number (column + 1) es := by
    intro c hc es
    rw [number_line hc, List.tail_cons]
  rw [blockEntries, if_neg hin, if_neg hout, hquestion]
  simp only [if_true, @htail '?' (by decide), hkey, hcolon, @htail ':' (by decide), hvalue, Option.bind_eq_bind,
    Option.bind_some]
  cases blockEntries n column rest with
  | none => rfl
  | some r => rfl

/-- **One entry**, with what follows it. -/
theorem blockEntries_step {column : Nat} {s : String} {value : Yaml} (hmarkedKey : ReadsMarked (text s))
    (hmarked : ReadsMarked value) (hkeyed : ReadsKeyed value) {j : Nat} (hj : j ≤ column) {content : List Char}
    (hcontent : Solid content) (hend : j = column → markAhead '-' (number j content) = false) {n : Nat}
    (hn : 2 * (entryLine column (text s) value ++ (spaces j ++ content)).length ≤ n) :
    blockEntries (n + 1) column (number column (entryLine column (text s) value ++ (spaces j ++ content))) =
      (blockEntries n column (number j content)).map (fun r => ((text s, value) :: r.1, r.2)) := by
  cases h : simpleKey? (text s) with
  | some written =>
    have hkey := readsKey_text h
    have hassoc : entryLine column (text s) value ++ (spaces j ++ content) =
        written ++ ':' :: (afterKey column value ++ (spaces j ++ content)) := by
      rw [entryLine_simple h]
      simp
    rw [hassoc] at hn ⊢
    rw [List.length_append, List.length_cons] at hn
    obtain ⟨k, hread⟩ := hkey.reads (atGap_afterKey column value (spaces j ++ content)) column
    have hvalue := hkeyed hj hend hcontent (n := n) (by omega) k
    exact blockEntries_simple (by simp) (hkey.noBoundary column _) (hkey.noMark (Or.inr rfl) column _) hread hvalue
  | none =>
    -- the key ends where the mark of the value begins, at the column of the entries
    let following := ':' :: (afterMark column value ++ (spaces j ++ content))
    have hassoc : entryLine column (text s) value ++ (spaces j ++ content) =
        '?' :: (afterMark column (text s) ++ (spaces column ++ following)) := by
      rw [entryLine_marked h]
      simp [following]
    have hsolid : Solid following := solid_cons (by decide)
    rw [hassoc] at hn ⊢
    rw [List.length_cons] at hn
    have hreadKey := hmarkedKey (Nat.le_refl column) hsolid (n := n) (by omega)
    have hreadValue := hmarked hj hcontent (n := n) (by
      rw [List.length_append, List.length_append] at hn
      simp only [following, List.length_cons] at hn
      omega)
    exact blockEntries_marked (atGap_afterMark column _ _) (atGap_afterMark column _ _) hreadKey hreadValue

/-- A text is read behind a dash and behind a key, in whichever style it is written. -/
theorem reads_text (s : String) : ReadsMarked (text s) ∧ ReadsKeyed (text s) :=
  reads_line fun context => ⟨textLine (context + 2) s, readsLine_text context s, by rw [afterMark], by rw [afterKey]⟩

/-- Content that is further out, or none at all, ends the entries. -/
theorem blockEntries_end {column j : Nat} {content : List Char} (hend : j < column ∨ content = []) (n : Nat) :
    blockEntries (n + 1) column (number j content) = some ([], number j content) := by
  rw [blockEntries]
  cases content with
  | nil => rfl
  | cons c rest =>
    have hout : j < column := hend.resolve_right (List.cons_ne_nil c rest)
    have hin : ¬column < j := by omega
    simp [number, hin, hout]

/-- **Entries are read one by one**, up to content that is further out. -/
theorem blockEntries_number {column j : Nat} (hj : j ≤ column) {content : List Char} (hcontent : Solid content)
    (hend : j < column ∨ content = []) {entries : List (String × Yaml)}
    (hentries : ∀ e ∈ entries, ReadsMarked e.2 ∧ ReadsKeyed e.2) (hne : entries ≠ []) {n : Nat}
    (hn : 2 * (entryLines [] column (entries.map (fun e => (text e.1, e.2))) ++ (spaces j ++ content)).length + 1 ≤ n) :
    blockEntries n column
        (number column (entryLines [] column (entries.map (fun e => (text e.1, e.2))) ++ (spaces j ++ content))) =
      some (entries.map (fun e => (text e.1, e.2)), number j content) := by
  have hnoItem : j = column → markAhead '-' (number j content) = false := by
    intro heq
    rcases hend with hout | rfl
    · omega
    · rfl
  induction entries generalizing n with
  | nil => exact absurd rfl hne
  | cons entry rest ih =>
    obtain ⟨n, rfl⟩ : ∃ m, n = m + 1 := ⟨n - 1, by omega⟩
    obtain ⟨⟨hmarked, hkeyed⟩, hrest⟩ := List.forall_mem_cons.mp hentries
    obtain ⟨hkey, -⟩ := reads_text entry.1
    cases rest with
    | nil =>
      have htext : entryLines [] column [(text entry.1, entry.2)] ++ (spaces j ++ content) =
          entryLine column (text entry.1) entry.2 ++ (spaces j ++ content) := by
        rw [entryLines_cons, entryLines, List.append_nil, List.nil_append]
      rw [List.map_singleton, htext] at hn ⊢
      rw [blockEntries_step hkey hmarked hkeyed hj hcontent hnoItem (by omega)]
      obtain ⟨-, hline, -⟩ := entryAhead_entryLine column entry.1 entry.2 [] column
      obtain ⟨m, rfl⟩ : ∃ m, n = m + 1 := ⟨n - 1, by
        have := List.length_pos_iff.mpr hline
        rw [List.length_append] at hn
        omega⟩
      rw [blockEntries_end hend]
      rfl
    | cons next more =>
      -- behind the first entry comes the next one: it is content at the same column, but no item
      let following := entryLines [] column ((next :: more).map (fun e => (text e.1, e.2))) ++ (spaces j ++ content)
      have htext : entryLines [] column ((entry :: next :: more).map (fun e => (text e.1, e.2))) ++
          (spaces j ++ content) = entryLine column (text entry.1) entry.2 ++ (spaces column ++ following) := by
        rw [List.map_cons, entryLines_cons, List.map_cons, entryLines_spaces]
        simp [following]
      have hfollowing : following = entryLine column (text next.1) next.2 ++
          (entryLines (spaces column) column (more.map (fun e => (text e.1, e.2))) ++ (spaces j ++ content)) := by
        simp [following, entryLines_cons]
      obtain ⟨hsolid, -, hahead⟩ := entryAhead_entryLine column next.1 next.2
        (entryLines (spaces column) column (more.map (fun e => (text e.1, e.2))) ++ (spaces j ++ content)) column
      rw [← hfollowing] at hsolid hahead
      rw [htext] at hn ⊢
      have hread := ih hrest (List.cons_ne_nil next more) (n := n) (by
        obtain ⟨-, hline, -⟩ := entryAhead_entryLine column entry.1 entry.2 [] column
        have := List.length_pos_iff.mpr hline
        rw [List.length_append, List.length_append] at hn
        show 2 * following.length + 1 ≤ n
        omega)
      rw [blockEntries_step hkey hmarked hkeyed (Nat.le_refl column) hsolid (fun _ => hahead.noItem) (by omega)]
      show Option.map _ (blockEntries n column (number column following)) = _
      rw [hread]
      rfl

/-! ## Collections -/

theorem exists_itemLines (column : Nat) (item : Yaml) (rest : List Yaml) :
    ∃ cs, itemLines [] column (item :: rest) = '-' :: ' ' :: cs := by
  obtain ⟨cs, hmark⟩ := exists_afterMark column item
  refine ⟨cs ++ itemLines (spaces column) column rest, ?_⟩
  rw [itemLines, hmark]
  rfl

/-- A sequence begins with a dash, so nothing is skipped in front of it. -/
theorem solid_itemLines (column : Nat) (item : Yaml) (rest : List Yaml) (tail : List Char) :
    Solid (itemLines [] column (item :: rest) ++ tail) := by
  obtain ⟨cs, hcs⟩ := exists_itemLines column item rest
  rw [hcs]
  exact solid_cons (by decide)

/-- Items begin behind a dash, and no document ends there. -/
theorem ahead_itemLines (column k : Nat) (item : Yaml) (rest : List Yaml) (tail : List Char) :
    markAhead '-' (number k (itemLines [] column (item :: rest) ++ tail)) = true ∧
      boundaryAhead (number k (itemLines [] column (item :: rest) ++ tail)) = false := by
  obtain ⟨cs, hcs⟩ := exists_itemLines column item rest
  rw [hcs]
  refine ⟨?_, boundaryAhead_item k _⟩
  rw [List.cons_append, markAhead_number]
  rfl

/-- A node that begins with an item is a sequence. -/
theorem blockNode_items {low column : Nat} (hlow : low ≤ column) (n : Nat) (item : Yaml) (rest : List Yaml)
    (tail : List Char) :
    blockNode (n + 1) low (number column (itemLines [] column (item :: rest) ++ tail)) =
      (blockItems n column (number column (itemLines [] column (item :: rest) ++ tail))).map
        (fun r => (sequence r.1, r.2)) := by
  obtain ⟨hdash, hboundary⟩ := ahead_itemLines column column item rest tail
  have hne : itemLines [] column (item :: rest) ++ tail ≠ [] := by
    obtain ⟨cs, hcs⟩ := exists_itemLines column item rest
    simp [hcs]
  rw [blockNode_number hlow hne hboundary, hdash, if_pos rfl]

theorem exists_entryLines (column : Nat) (entry : String × Yaml) (rest : List (String × Yaml)) (tail : List Char) :
    ∃ more, entryLines [] column ((entry :: rest).map (fun e => (text e.1, e.2))) ++ tail =
      entryLine column (text entry.1) entry.2 ++ more := by
  rw [List.map_cons, entryLines_cons, List.nil_append, List.append_assoc]
  exact ⟨_, rfl⟩

/-- A mapping begins with a key or a mark, so nothing is skipped in front of it. -/
theorem solid_entryLines (column : Nat) (entry : String × Yaml) (rest : List (String × Yaml)) (tail : List Char) :
    Solid (entryLines [] column ((entry :: rest).map (fun e => (text e.1, e.2))) ++ tail) := by
  obtain ⟨more, hmore⟩ := exists_entryLines column entry rest tail
  rw [hmore]
  exact (entryAhead_entryLine column entry.1 entry.2 more column).1

/-- A node that begins with an entry is a mapping. -/
theorem blockNode_entries {low column : Nat} (hlow : low ≤ column) (n : Nat) (entry : String × Yaml)
    (rest : List (String × Yaml)) (tail : List Char) :
    blockNode (n + 1) low
        (number column (entryLines [] column ((entry :: rest).map (fun e => (text e.1, e.2))) ++ tail)) =
      (blockEntries n column
        (number column (entryLines [] column ((entry :: rest).map (fun e => (text e.1, e.2))) ++ tail))).map
        (fun r => (mapping r.1, r.2)) := by
  obtain ⟨more, hmore⟩ := exists_entryLines column entry rest tail
  obtain ⟨-, hne, hahead⟩ := entryAhead_entryLine column entry.1 entry.2 more column
  rw [hmore, blockNode_number hlow (List.append_ne_nil_of_left_ne_nil hne _) hahead.noBoundary, hahead.noItem,
    hahead.key]
  rfl

/-- Behind a dash a sequence begins on the same line. -/
theorem readsMarked_sequence {item : Yaml} {rest : List Yaml} (h : ∀ d ∈ item :: rest, ReadsMarked d) :
    ReadsMarked (sequence (item :: rest)) := by
  intro context j content n hj hcontent hn
  rw [afterMark, List.cons_append] at hn ⊢
  rw [List.length_cons] at hn
  obtain ⟨n, rfl⟩ : ∃ m, n = m + 2 := ⟨n - 2, by omega⟩
  -- behind the mark and its space the items begin two columns further in
  have hitems := @blockItems_number (context + 2) j (by omega) content hcontent (by omega) (item :: rest) h
    (List.cons_ne_nil _ _) n (by omega)
  have hne : itemLines [] (context + 2) (item :: rest) ++ (spaces j ++ content) ≠ [] := by
    obtain ⟨cs, hcs⟩ := exists_itemLines (context + 2) item rest
    simp [hcs]
  rw [markedNode_space hne (solid_itemLines _ _ _ _), blockNode_items (by omega), hitems]
  rfl

/-- Behind a key a sequence begins on the next line, no further in than the key. -/
theorem readsKeyed_sequence {item : Yaml} {rest : List Yaml} (h : ∀ d ∈ item :: rest, ReadsMarked d) :
    ReadsKeyed (sequence (item :: rest)) := by
  intro context j content n hj hend hcontent hn k
  have htext : afterKey context (sequence (item :: rest)) ++ (spaces j ++ content) =
      '\n' :: (spaces context ++ (itemLines [] context (item :: rest) ++ (spaces j ++ content))) := by
    rw [afterKey, itemLines_spaces]
    simp
  rw [htext] at hn ⊢
  rw [List.length_cons, List.length_append] at hn
  obtain ⟨n, rfl⟩ : ∃ m, n = m + 1 := ⟨n - 1, by omega⟩
  -- behind a key the items are not moved in: their column is that of the keys
  have hitems := @blockItems_number context j hj content hcontent hend (item :: rest) h (List.cons_ne_nil _ _) n
    (by omega)
  obtain ⟨hdash, hboundary⟩ := ahead_itemLines context context item rest (spaces j ++ content)
  have hcolumn : (number context (itemLines [] context (item :: rest) ++ (spaces j ++ content))).head?.any
      (fun t => t.column == context) = true := by
    obtain ⟨cs, hcs⟩ := exists_itemLines context item rest
    simp [hcs, number]
  rw [keyedNode_break (solid_itemLines _ _ _ _), hcolumn, hdash, hboundary, if_pos (by decide), hitems]
  rfl

/-- Behind a dash a mapping begins on the same line. -/
theorem readsMarked_mapping {entry : String × Yaml} {rest : List (String × Yaml)}
    (h : ∀ e ∈ entry :: rest, ReadsMarked e.2 ∧ ReadsKeyed e.2) :
    ReadsMarked (mapping ((entry :: rest).map (fun e => (text e.1, e.2)))) := by
  intro context j content n hj hcontent hn
  have hmark : afterMark context (mapping ((entry :: rest).map (fun e => (text e.1, e.2)))) =
      ' ' :: entryLines [] (context + 2) ((entry :: rest).map (fun e => (text e.1, e.2))) := by
    rw [List.map_cons, afterMark]
  rw [hmark, List.cons_append] at hn ⊢
  rw [List.length_cons] at hn
  obtain ⟨n, rfl⟩ : ∃ m, n = m + 2 := ⟨n - 2, by omega⟩
  have hentries := @blockEntries_number (context + 2) j (by omega) content hcontent (Or.inl (by omega))
    (entry :: rest) h (List.cons_ne_nil _ _) n (by omega)
  have hne : entryLines [] (context + 2) ((entry :: rest).map (fun e => (text e.1, e.2))) ++ (spaces j ++ content) ≠
      [] := by
    obtain ⟨more, hmore⟩ := exists_entryLines (context + 2) entry rest (spaces j ++ content)
    rw [hmore]
    exact List.append_ne_nil_of_left_ne_nil (entryAhead_entryLine _ _ _ [] 0).2.1 _
  rw [markedNode_space hne (solid_entryLines _ _ _ _), blockNode_entries (by omega), hentries]
  rfl

/-- Behind a key a mapping begins on the next line, two columns further in. -/
theorem readsKeyed_mapping {entry : String × Yaml} {rest : List (String × Yaml)}
    (h : ∀ e ∈ entry :: rest, ReadsMarked e.2 ∧ ReadsKeyed e.2) :
    ReadsKeyed (mapping ((entry :: rest).map (fun e => (text e.1, e.2)))) := by
  intro context j content n hj hend hcontent hn k
  have htext : afterKey context (mapping ((entry :: rest).map (fun e => (text e.1, e.2)))) ++ (spaces j ++ content) =
      '\n' :: (spaces (context + 2) ++
        (entryLines [] (context + 2) ((entry :: rest).map (fun e => (text e.1, e.2))) ++ (spaces j ++ content))) := by
    rw [List.map_cons, afterKey, entryLines_spaces]
    simp
  rw [htext] at hn ⊢
  rw [List.length_cons, List.length_append] at hn
  obtain ⟨n, rfl⟩ : ∃ m, n = m + 2 := ⟨n - 2, by omega⟩
  have hentries := @blockEntries_number (context + 2) j (by omega) content hcontent (Or.inl (by omega))
    (entry :: rest) h (List.cons_ne_nil _ _) n (by omega)
  -- entries are further in than the key, so they cannot be taken for items of its column
  have hcolumn : (number (context + 2) (entryLines [] (context + 2)
      ((entry :: rest).map (fun e => (text e.1, e.2))) ++ (spaces j ++ content))).head?.any
      (fun t => t.column == context) = false := by
    cases entryLines [] (context + 2) ((entry :: rest).map (fun e => (text e.1, e.2))) ++ (spaces j ++ content) with
    | nil => rfl
    | cons c cs => simp [number]
  rw [keyedNode_break (solid_entryLines _ _ _ _), hcolumn]
  show blockNode (n + 1) (context + 1) _ = _
  rw [blockNode_entries (by omega), hentries]
  rfl

/-- **Every value is read where it is written**, behind a mark and behind a key, whatever follows it there. -/
theorem reads_canonical {d : Yaml} (h : Canonical d) : ReadsMarked d ∧ ReadsKeyed d := by
  -- flags, counts and null are all written as plain scalars
  have hplain : ∀ {s}, Canonical (plain s) → ReadsMarked (plain s) ∧ ReadsKeyed (plain s) := fun {s} hs =>
    reads_line fun context => ⟨s.toList ++ ['\n'], readsLine_plain context hs, by rw [afterMark], by rw [afterKey]⟩
  induction h with
  | text s => exact reads_text s
  | flag b => exact hplain (.flag b)
  | null => exact hplain .null
  | count hn => exact hplain (.count hn)
  | @sequence items _ ih =>
    cases items with
    | nil =>
      refine reads_line fun context => ⟨['[', ']', '\n'], readsLine_empty context (Or.inl ⟨rfl, rfl, rfl⟩), ?_, ?_⟩
      · rw [afterMark]
        rfl
      · rw [afterKey]
        rfl
    | cons item rest =>
      have hitems : ∀ d ∈ item :: rest, ReadsMarked d := fun d hd => (ih d hd).1
      exact ⟨readsMarked_sequence hitems, readsKeyed_sequence hitems⟩
  | @mapping entries _ ih =>
    cases entries with
    | nil =>
      refine reads_line fun context =>
        ⟨['\x7b', '\x7d', '\n'], readsLine_empty context (Or.inr ⟨rfl, rfl, rfl⟩), ?_, ?_⟩
      · rw [List.map_nil, afterMark]
      · rw [List.map_nil, afterKey]
    | cons entry rest => exact ⟨readsMarked_mapping ih, readsKeyed_mapping ih⟩

end Yaml
end TableSpec
