import TableSpec.Document
import TableSpec.Proofs.Result

/-!
# `Proofs.Document.Record` — records read back as they were written

Nothing here knows a format. A format says that what it builds from a text, a number, a list and so on is
viewed as the same again (`LawfulDocument`); lists, maps and records of values then read back as they were
written, whatever the values are.

A record leaves out fields with their default value, and reading starts from a record in which all fields
have it. So after some of the fields, the record that is read has these fields of the one that was written,
and the default value in all others; `Field.restore` is what becomes of one more field, and there is one
lemma about it for each kind of field.

## Contents
- `LawfulDocument`: what a format has to say about its values.
- `readList_ofItems`, `readMap_writeMap`, `readSet_ofItems`: lists, maps and sets.
- `Field.restore`, `restoreAll`, `readRecord_writeRecord`: records.
- `Document.Closed`, `writeRecord_mem`: properties of all that is written.
- `Field.Keeps`, `readRecord_keeps`: properties of all that is read.
-/

namespace TableSpec

open Document

/-- A format in which values are viewed as what they were built from. A number is a count when it fits into a
    machine word. -/
class LawfulDocument (δ : Type) [Document δ] : Prop where
  text_ofText (s : String) : text (ofText s : δ) = .ok s
  flag_ofFlag (b : Bool) : flag (ofFlag b : δ) = .ok b
  count_ofCount {n : Nat} : n < UInt64.size → count (ofCount n : δ) = .ok n
  lt_of_count {d : δ} {n : Nat} : count d = .ok n → n < UInt64.size
  scalar_ofScalar (s : Scalar) : scalar (ofScalar s : δ) = .ok s
  isNull_ofEntries (es : List (String × δ)) : isNull (ofEntries es) = false
  items_ofItems (ds : List δ) : items (ofItems ds) = .ok ds
  entries_ofEntries (es : List (String × δ)) : entries (ofEntries es) = .ok es
  fields_ofEntries (names : List String) (es : List (String × δ)) : fields names (ofEntries es) = .ok es

/-! ## Maps and sets of names -/

namespace KeyMap

variable {α β : Type}

/-- Entries with increasing keys, bound one after the other, count before those that were there. -/
theorem get?_foldl_insert (f : String → α → β) {entries : List (String × α)} (hsorted : Sorted entries)
    (m : KeyMap β) (key : String) :
    (entries.foldl (fun m e => m.insert e.1 (f e.1 e.2)) m).get? key =
      ((lookupKey key entries).map (f key)).or (m.get? key) := by
  induction entries generalizing m with
  | nil => rfl
  | cons e rest ih =>
    obtain ⟨k, a⟩ := e
    obtain ⟨hhead, hrest⟩ := List.pairwise_cons.mp hsorted
    rw [List.foldl_cons, ih hrest, get?_insert, lookupKey]
    by_cases hk : key = k
    · subst hk
      -- the entry that has just been put in is found, as the rest has none of its key
      rw [lookupKey_eq_none hhead, if_pos rfl, if_pos rfl]
      rfl
    · rw [if_neg hk, if_neg hk]

/-- A map is made of its entries. -/
theorem foldl_insert_entries (m : KeyMap α) :
    m.entries.foldl (fun m e => m.insert e.1 e.2) .empty = m := by
  apply ext_get?
  intro key
  rw [get?_foldl_insert (fun _ a => a) m.sorted, get?_empty, Option.or_none, Option.map_id']
  rfl

end KeyMap

/-- A set is made from its own names again. -/
theorem KeySet.ofList_toList (s : KeySet) : KeySet.ofList s.toList = s := by
  apply KeySet.ext_mem
  intro name
  simp [KeySet.ofList]

/-! ## Lists, maps and sets -/

section

variable {δ α : Type} {read : δ → Except Error α} {write : α → δ}

/-- Items that are each read back are read back together, in their order. -/
theorem mapM_map_write {xs : List α} (h : ∀ a ∈ xs, read (write a) = .ok a) :
    (xs.map write).mapM read = .ok xs := by
  induction xs with
  | nil => rfl
  | cons a rest ih =>
    have ha := h a List.mem_cons_self
    have hrest := ih fun b hb => h b (List.mem_cons_of_mem _ hb)
    rw [List.map_cons, List.mapM_cons, ha, hrest]
    rfl

/-- Entries that are each read back are put into a map one after the other, later ones over earlier ones. -/
theorem foldlM_insert {entries : List (String × α)} (h : ∀ e ∈ entries, read (write e.2) = .ok e.2)
    (m : KeyMap α) :
    (entries.map (fun e => (e.1, write e.2))).foldlM (fun m e => (read e.2).map (m.insert e.1)) m =
      .ok (entries.foldl (fun m e => m.insert e.1 e.2) m) := by
  induction entries generalizing m with
  | nil => rfl
  | cons e rest ih =>
    have he := h e List.mem_cons_self
    have hrest := ih (fun b hb => h b (List.mem_cons_of_mem _ hb)) (m.insert e.1 e.2)
    rw [List.map_cons, List.foldlM_cons, he, List.foldl_cons, ← hrest]
    rfl

variable [Document δ] [LawfulDocument δ]

/-- **Lists.** -/
theorem readList_ofItems {xs : List α} (h : ∀ a ∈ xs, read (write a) = .ok a) :
    readList read (ofItems (xs.map write)) = .ok xs := by
  rw [readList, LawfulDocument.items_ofItems]
  exact mapM_map_write h

/-- **Maps.** -/
theorem readMap_writeMap {m : KeyMap α} (h : ∀ key a, m.get? key = some a → read (write a) = .ok a) :
    readMap read (writeMap write m) = .ok m := by
  have hentries : ∀ e ∈ m.entries, read (write e.2) = .ok e.2 :=
    fun e he => h e.1 e.2 (KeyMap.mem_entries_iff.mp he)
  rw [readMap, writeMap, LawfulDocument.entries_ofEntries]
  refine (foldlM_insert hentries .empty).trans ?_
  rw [KeyMap.foldl_insert_entries]

/-- **Sets of names.** -/
theorem readSet_ofItems (s : KeySet) : readSet (ofItems (s.toList.map ofText) : δ) = .ok s := by
  rw [readSet, readList_ofItems (fun name _ => LawfulDocument.text_ofText name)]
  exact congrArg Except.ok s.ofList_toList

end

/-! ## What becomes of a field -/

namespace Field

variable {δ σ α : Type}

/-- What reading makes of the field of `s` as it was written, when `t` is what has been read before. -/
def restore (f : Field δ σ) (s t : σ) : Except Error σ :=
  match f.write s with
  | none => .ok t
  | some d => f.read d t

variable [Document δ] [LawfulDocument δ] {name : String} {s t : σ}

/-- A count is restored if it fits into 64 bits. It is never left out. -/
theorem restore_count {get : σ → Nat} {set : Nat → σ → σ} (hn : get s < UInt64.size) :
    (count name get set : Field δ σ).restore s t = .ok (set (get s) t) := by
  simp [restore, count, LawfulDocument.count_ofCount hn, Except.map]

/-- An empty text is left out, so it has to be what the field holds before. -/
theorem restore_text {get : σ → String} {set : String → σ → σ} (hdefault : set "" t = t) :
    (text name get set : Field δ σ).restore s t = .ok (set (get s) t) := by
  by_cases hempty : get s = ""
  · simp [restore, text, hempty, hdefault]
  · simp [restore, text, hempty, LawfulDocument.text_ofText, Except.map]

theorem restore_flag {get : σ → Bool} {set : Bool → σ → σ} (hdefault : set false t = t) :
    (flag name get set : Field δ σ).restore s t = .ok (set (get s) t) := by
  cases hget : get s with
  | false => simp [restore, flag, hget, hdefault]
  | true => simp [restore, flag, hget, LawfulDocument.flag_ofFlag, Except.map]

theorem restore_list {read : δ → Except Error α} {write : α → δ} {get : σ → List α} {set : List α → σ → σ}
    (hdefault : set [] t = t) (h : ∀ a ∈ get s, read (write a) = .ok a) :
    (list name read write get set).restore s t = .ok (set (get s) t) := by
  cases hget : get s with
  | nil => simp [restore, list, hget, hdefault]
  | cons a rest =>
    -- a list that is not empty is written whole, and read whole
    have hlist : readList read (ofItems ((get s).map write)) = .ok (get s) := readList_ofItems h
    rw [hget, List.map_cons] at hlist
    simp [restore, list, hget, hlist, Except.map]

theorem restore_names {get : σ → KeySet} {set : KeySet → σ → σ} (hdefault : set .empty t = t) :
    (names name get set : Field δ σ).restore s t = .ok (set (get s) t) := by
  cases hempty : (get s).isEmpty with
  | true =>
    have hget : get s = .empty := by
      apply KeySet.ext_mem
      intro name
      simp [← KeySet.mem_toList, List.isEmpty_iff.mp hempty, KeySet.empty]
    simp only [restore, names, hempty, if_true]
    rw [hget, hdefault]
  | false => simp [restore, names, hempty, readSet_ofItems, Except.map]

/-- A map is restored when each of its values is read back from what is written for it. -/
theorem restore_map {read : δ → Except Error α} {write : α → δ} {get : σ → KeyMap α}
    {set : KeyMap α → σ → σ} (hdefault : set .empty t = t)
    (h : ∀ key a, (get s).get? key = some a → read (write a) = .ok a) :
    (map name read write get set).restore s t = .ok (set (get s) t) := by
  cases hempty : (get s).isEmpty with
  | true =>
    have hget : get s = .empty := by
      apply KeyMap.ext_get?
      intro key
      simp [KeyMap.get?, List.isEmpty_iff.mp hempty, KeyMap.empty]
    simp only [restore, map, hempty, if_true]
    rw [hget, hdefault]
  | false => simp [restore, map, hempty, readMap_writeMap h, Except.map]

omit [LawfulDocument δ] in
/-- What is there has to be told apart from what is not, so no value may be written as null. -/
theorem restore_option {read : δ → Except Error α} {write : α → δ} {get : σ → Option α}
    {set : Option α → σ → σ} (hdefault : set none t = t)
    (h : ∀ a, get s = some a → isNull (write a) = false ∧ read (write a) = .ok a) :
    (option name read write get set).restore s t = .ok (set (get s) t) := by
  cases hget : get s with
  | none => simp [restore, option, hget, hdefault]
  | some a =>
    obtain ⟨hnull, hread⟩ := h a hget
    simp [restore, option, hget, readOption, hnull, hread, Except.map]

end Field

/-! ## Records -/

section

variable {δ σ : Type} {fields : List (Field δ σ)} {s : σ}

/-- What becomes of several fields, one after the other. -/
def restoreAll (fields : List (Field δ σ)) (s t : σ) : Except Error σ :=
  fields.foldlM (fun t f => f.restore s t) t

/-- Fields are restored one after the other. -/
theorem restoreAll_cons {f : Field δ σ} {t t' u : σ} (h : f.restore s t = .ok t')
    (hrest : restoreAll fields s t' = .ok u) : restoreAll (f :: fields) s t = .ok u :=
  bind_eq_ok.mpr ⟨t', h, hrest⟩

/-- Of fields with different names, the one that is found by its name is the field itself. -/
theorem find?_name (hnames : (fields.map Field.name).Nodup) :
    ∀ f ∈ fields, fields.find? (fun g => g.name = f.name) = some f := by
  induction fields with
  | nil => simp
  | cons g rest ih =>
    obtain ⟨hg, hrest⟩ := List.nodup_cons.mp hnames
    intro f hf
    rcases List.mem_cons.mp hf with rfl | hf
    · rw [List.find?_cons_of_pos (by simp)]
    · have hne : g.name ≠ f.name := fun heq => hg (heq ▸ List.mem_map_of_mem hf)
      rw [List.find?_cons_of_neg (by simpa using hne), ih hrest f hf]

/-- The entries of a record as it is written. -/
def written (fields : List (Field δ σ)) (s : σ) : List (String × δ) :=
  fields.filterMap (fun f => (f.write s).map (fun d => (f.name, d)))

variable [Document δ]

/-- Reading the entries of some fields restores these fields. None of them has been seen before. -/
theorem foldlM_readEntry {all : List (Field δ σ)} (hall : (all.map Field.name).Nodup)
    (hmem : ∀ f ∈ fields, f ∈ all) (hnames : (fields.map Field.name).Nodup) {seen : List String}
    (hseen : ∀ f ∈ fields, f.name ∉ seen) {t u : σ} (h : restoreAll fields s t = .ok u) :
    ∃ seen', (written fields s).foldlM (readEntry all) (t, seen) = .ok (u, seen') ∧
      (∀ name ∈ seen, name ∈ seen') ∧ ∀ f ∈ fields, (f.write s).isSome = true → f.name ∈ seen' := by
  induction fields generalizing t seen with
  | nil =>
    cases h
    exact ⟨seen, rfl, fun _ hn => hn, by simp⟩
  | cons f rest ih =>
    obtain ⟨t', ht', hrest⟩ := bind_eq_ok.mp h
    change f.restore s t = .ok t' at ht'
    obtain ⟨hf, hnames⟩ := List.nodup_cons.mp hnames
    have hmemRest : ∀ g ∈ rest, g ∈ all := fun g hg => hmem g (List.mem_cons_of_mem _ hg)
    cases hwrite : f.write s with
    | none =>
      -- the field has its default value, and there is no entry
      rw [Field.restore, hwrite] at ht'
      cases ht'
      obtain ⟨seen', hfold, hold, hnew⟩ :=
        ih hmemRest hnames (fun g hg => hseen g (List.mem_cons_of_mem _ hg)) hrest
      refine ⟨seen', by simpa [written, hwrite] using hfold, hold, fun g hg hsome => ?_⟩
      rcases List.mem_cons.mp hg with rfl | hg
      · exact absurd hsome (by simp [hwrite])
      · exact hnew g hg hsome
    | some d =>
      rw [Field.restore, hwrite] at ht'
      have hread : f.read d t = .ok t' := ht'
      have hentry : readEntry all (t, seen) (f.name, d) = .ok (t', f.name :: seen) := by
        have hnot : f.name ∉ seen := hseen f List.mem_cons_self
        simp [readEntry, find?_name hall f (hmem f List.mem_cons_self), hnot, hread, Except.map]
      -- the names of the fields differ, so the one just seen is none of those to come
      have hseenRest : ∀ g ∈ rest, g.name ∉ f.name :: seen := by
        intro g hg hin
        rcases List.mem_cons.mp hin with heq | hin
        · exact hf (heq ▸ List.mem_map_of_mem hg)
        · exact hseen g (List.mem_cons_of_mem _ hg) hin
      obtain ⟨seen', hfold, hold, hnew⟩ := ih hmemRest hnames hseenRest hrest
      refine ⟨seen', ?_, fun name hn => hold name (List.mem_cons_of_mem _ hn), fun g hg hsome => ?_⟩
      · have hwritten : written (f :: rest) s = (f.name, d) :: written rest s := by simp [written, hwrite]
        rw [hwritten, List.foldlM_cons, hentry]
        exact hfold
      · rcases List.mem_cons.mp hg with rfl | hg
        · exact hold g.name List.mem_cons_self
        · exact hnew g hg hsome

/-- **Records.** A record reads back as it was written when all its fields are restored and those that are
    required are written. -/
theorem readRecord_writeRecord [LawfulDocument δ] {required : List String} {start : σ}
    (hnames : (fields.map Field.name).Nodup)
    (hrequired : ∀ name ∈ required, ∃ f ∈ fields, f.name = name ∧ (f.write s).isSome = true)
    (h : restoreAll fields s start = .ok s) :
    readRecord fields required start (writeRecord fields s) = .ok s := by
  -- reading starts with nothing seen, and ends with every field seen that is written
  have hnone : ∀ f ∈ fields, f.name ∉ ([] : List String) := by simp
  obtain ⟨seen, hfold, -, hseen⟩ := foldlM_readEntry hnames (fun f hf => hf) hnames hnone h
  have hall : required.all seen.contains = true := by
    refine List.all_eq_true.mpr fun name hn => ?_
    obtain ⟨f, hf, rfl, hsome⟩ := hrequired name hn
    simpa using hseen f hf hsome
  rw [readRecord, writeRecord, LawfulDocument.fields_ofEntries]
  refine bind_eq_ok.mpr ⟨written fields s, rfl, bind_eq_ok.mpr ⟨(s, seen), hfold, ?_⟩⟩
  exact if_pos hall

end

/-! ## What all that is written has in common -/

/-- A property that whatever is built from values with it has too. -/
structure Document.Closed {δ : Type} [Document δ] (P : δ → Prop) : Prop where
  text (s : String) : P (ofText s)
  flag (b : Bool) : P (ofFlag b)
  null : P ofNull
  count {n : Nat} : n < UInt64.size → P (ofCount n)
  items {ds : List δ} : (∀ d ∈ ds, P d) → P (ofItems ds)
  entries {es : List (String × δ)} : (∀ e ∈ es, P e.2) → P (ofEntries es)

section

variable {δ σ α : Type} [Document δ] {P : δ → Prop} (hP : Closed P)
include hP

/-- Scalars are texts, truth values or null in all documents. -/
theorem Document.Closed.scalar (v : Scalar) : P (ofScalar v) := by
  cases v with
  | bool b => exact hP.flag b
  | text s => exact hP.text s
  | null => exact hP.null

theorem Document.Closed.map_write {write : α → δ} {xs : List α} (h : ∀ a ∈ xs, P (write a)) :
    P (ofItems (xs.map write)) := by
  refine hP.items fun d hd => ?_
  obtain ⟨a, ha, rfl⟩ := List.mem_map.mp hd
  exact h a ha

/-- A map is a document of the kind when its values are. -/
theorem Document.Closed.writeMap {write : α → δ} {m : KeyMap α}
    (h : ∀ key a, m.get? key = some a → P (write a)) : P (writeMap write m) := by
  refine hP.entries fun e he => ?_
  obtain ⟨⟨key, a⟩, ha, rfl⟩ := List.mem_map.mp he
  exact h key a (KeyMap.mem_entries_iff.mp ha)

/-- A record has the property when the values of its fields have it. -/
theorem writeRecord_mem {fields : List (Field δ σ)} {s : σ}
    (h : ∀ f ∈ fields, ∀ d, f.write s = some d → P d) : P (writeRecord fields s) := by
  refine hP.entries fun e he => ?_
  obtain ⟨f, hf, hwrite⟩ := List.mem_filterMap.mp he
  obtain ⟨d, hd, rfl⟩ := Option.map_eq_some_iff.mp hwrite
  exact h f hf d hd

namespace Field

variable {name : String} {s : σ} {d : δ}

theorem write_count {get : σ → Nat} {set : Nat → σ → σ} (hn : get s < UInt64.size)
    (h : (count name get set : Field δ σ).write s = some d) : P d := by
  cases h
  exact hP.count hn

theorem write_text {get : σ → String} {set : String → σ → σ}
    (h : (text name get set : Field δ σ).write s = some d) : P d := by
  obtain ⟨-, hd⟩ := Option.ite_none_left_eq_some.mp h
  cases hd
  exact hP.text _

theorem write_flag {get : σ → Bool} {set : Bool → σ → σ}
    (h : (flag name get set : Field δ σ).write s = some d) : P d := by
  obtain ⟨-, hd⟩ := Option.ite_none_right_eq_some.mp h
  cases hd
  exact hP.flag true

/-- What is written of a list is of the kind when what is written of its items is. -/
theorem write_list {read : δ → Except Error α} {write : α → δ} {get : σ → List α} {set : List α → σ → σ}
    (hxs : ∀ a ∈ get s, P (write a)) (h : (list name read write get set).write s = some d) : P d := by
  obtain ⟨-, hd⟩ := Option.ite_none_left_eq_some.mp h
  cases hd
  exact hP.map_write hxs

theorem write_names {get : σ → KeySet} {set : KeySet → σ → σ}
    (h : (names name get set : Field δ σ).write s = some d) : P d := by
  obtain ⟨-, hd⟩ := Option.ite_none_left_eq_some.mp h
  cases hd
  exact hP.map_write fun name _ => hP.text name

theorem write_map {read : δ → Except Error α} {write : α → δ} {get : σ → KeyMap α}
    {set : KeyMap α → σ → σ} (hm : ∀ key a, (get s).get? key = some a → P (write a))
    (h : (map name read write get set).write s = some d) : P d := by
  obtain ⟨-, hd⟩ := Option.ite_none_left_eq_some.mp h
  cases hd
  exact hP.writeMap hm

omit hP in
/-- What is not there is not written, so only what is there counts. -/
theorem write_option {read : δ → Except Error α} {write : α → δ} {get : σ → Option α}
    {set : Option α → σ → σ} (ho : ∀ a, get s = some a → P (write a))
    (h : (option name read write get set).write s = some d) : P d := by
  obtain ⟨a, ha, rfl⟩ := Option.map_eq_some_iff.mp h
  exact ho a ha

end Field

end

/-! ## What all that is read has in common -/

section

variable {δ σ α : Type} {read : δ → Except Error α} {Q : α → Prop}

/-- Whatever holds of all that is read holds of each item of a list. -/
theorem mapM_forall {ds : List δ} {xs : List α} (h : ds.mapM read = .ok xs)
    (hread : ∀ d a, read d = .ok a → Q a) : ∀ a ∈ xs, Q a := by
  induction ds generalizing xs with
  | nil =>
    cases h
    simp
  | cons d rest ih =>
    rw [List.mapM_cons] at h
    obtain ⟨a, ha, h⟩ := bind_eq_ok.mp h
    obtain ⟨more, hmore, h⟩ := bind_eq_ok.mp h
    cases h
    intro b hb
    rcases List.mem_cons.mp hb with rfl | hb
    · exact hread d b ha
    · exact ih hmore b hb

/-- Whatever holds of all that is read, and of a map before, holds of the map with the entries. -/
theorem foldlM_insert_forall {es : List (String × δ)} {m m' : KeyMap α}
    (h : es.foldlM (fun m e => (read e.2).map (m.insert e.1)) m = .ok m')
    (hread : ∀ d a, read d = .ok a → Q a) (hm : ∀ key a, m.get? key = some a → Q a) :
    ∀ key a, m'.get? key = some a → Q a := by
  induction es generalizing m with
  | nil =>
    cases h
    exact hm
  | cons e rest ih =>
    obtain ⟨m₁, he, hrest⟩ := bind_eq_ok.mp h
    obtain ⟨b, hb, rfl⟩ := map_eq_ok.mp he
    refine ih hrest fun key a hget => ?_
    rw [KeyMap.get?_insert] at hget
    by_cases hk : key = e.1
    · rw [if_pos hk, Option.some.injEq] at hget
      exact hread e.2 a (hget ▸ hb)
    · rw [if_neg hk] at hget
      exact hm key a hget

variable [Document δ]

theorem readList_forall {d : δ} {xs : List α} (h : readList read d = .ok xs)
    (hread : ∀ d a, read d = .ok a → Q a) : ∀ a ∈ xs, Q a := by
  obtain ⟨ds, -, hds⟩ := bind_eq_ok.mp h
  exact mapM_forall hds hread

/-- Whatever holds of all that is read holds of each value of a map. -/
theorem readMap_forall {d : δ} {m : KeyMap α} (h : readMap read d = .ok m)
    (hread : ∀ d a, read d = .ok a → Q a) : ∀ key a, m.get? key = some a → Q a := by
  obtain ⟨es, -, hes⟩ := bind_eq_ok.mp h
  exact foldlM_insert_forall hes hread (by simp)

/-- A field whose value can be read into a record without the record losing a property. -/
def Field.Keeps (Q : σ → Prop) (f : Field δ σ) : Prop := ∀ d t u, f.read d t = .ok u → Q t → Q u

/-- An entry is skipped, or read into one of the fields. -/
theorem readEntry_keeps {Q : σ → Prop} {fields : List (Field δ σ)} {state next : σ × List String}
    {e : String × δ} (h : readEntry fields state e = .ok next) (hfields : ∀ f ∈ fields, f.Keeps Q)
    (hQ : Q state.1) : Q next.1 := by
  unfold readEntry at h
  split at h
  · obtain ⟨-, -, rfl⟩ := map_eq_ok.mp h
    exact hQ
  · rename_i f hf
    split at h
    · -- the field has been seen before
      exact absurd h (by simp)
    · obtain ⟨u, hread, rfl⟩ := map_eq_ok.mp h
      exact hfields f (List.mem_of_find?_eq_some hf) _ _ _ hread hQ

/-- Entries are taken in one after the other, so that what each field keeps is kept. -/
theorem foldlM_readEntry_keeps {Q : σ → Prop} {fields : List (Field δ σ)} {state next : σ × List String}
    {es : List (String × δ)} (h : es.foldlM (readEntry fields) state = .ok next)
    (hfields : ∀ f ∈ fields, f.Keeps Q) (hQ : Q state.1) : Q next.1 := by
  induction es generalizing state with
  | nil =>
    cases h
    exact hQ
  | cons e rest ih =>
    obtain ⟨state', he, hrest⟩ := bind_eq_ok.mp h
    exact ih hrest (readEntry_keeps he hfields hQ)

/-- A record that is read has the property that the default one has and all fields keep. -/
theorem readRecord_keeps {Q : σ → Prop} {fields : List (Field δ σ)} {required : List String} {start s : σ}
    {d : δ} (h : readRecord fields required start d = .ok s) (hfields : ∀ f ∈ fields, f.Keeps Q)
    (hstart : Q start) : Q s := by
  obtain ⟨es, -, h⟩ := bind_eq_ok.mp h
  obtain ⟨⟨s', seen⟩, hfold, h⟩ := bind_eq_ok.mp h
  -- what is left is the check that all required fields have been seen
  have hs : s' = s := by
    change (if required.all seen.contains then Except.ok s' else _) = _ at h
    split at h
    · exact Except.ok.inj h
    · exact absurd h (by simp)
  subst hs
  exact foldlM_readEntry_keeps hfold hfields hstart

end

end TableSpec
