/-!
# `TableSpec.KeyMap` — finite maps and sets of names, in the order of the names

Everything the catalog keeps under a name (namespaces, tables, options, extended schemas, platforms)
is kept in code point order of the names, and that order shows in every document and listing. A map
is therefore a list of entries with strictly increasing keys, and two maps with the same bindings are
*equal*: no order of insertion survives in the value.

## Contents
- **`KeyMap α`**: `get?`, `insert`, `erase`, `ofList` and the views `entries`, `keys`, `values`.
  `KeyMap.ext_get?`: maps that answer every look-up alike are equal, whatever the order of insertion
  (`insert_insert`, `insert_comm`).
- **`KeySet`**: the same for bare names; `mem_insert`, `mem_union`, `KeySet.ext_mem`.
-/

namespace TableSpec

universe u v

/-! ## Sorted association lists -/

/-- The value bound to `key`; the list may stop being searched at the first greater key. -/
def lookupKey {α : Type u} (key : String) : List (String × α) → Option α
  | [] => none
  | (k, a) :: rest => if key = k then some a else lookupKey key rest

/-- Put `key` at its place, replacing the binding it may already have. -/
def insertKey {α : Type u} (key : String) (value : α) : List (String × α) → List (String × α)
  | [] => [(key, value)]
  | (k, a) :: rest =>
    if key < k then (key, value) :: (k, a) :: rest
    else if key = k then (key, value) :: rest
    else (k, a) :: insertKey key value rest

/-- Drop the binding of `key`. -/
def eraseKey {α : Type u} (key : String) : List (String × α) → List (String × α)
  | [] => []
  | (k, a) :: rest => if key = k then rest else (k, a) :: eraseKey key rest

/-- Keys strictly increase along the list. -/
def Sorted {α : Type u} (entries : List (String × α)) : Prop :=
  entries.Pairwise (fun p q => p.1 < q.1)

theorem mem_insertKey {α : Type u} {key : String} {value : α} {entries : List (String × α)}
    {p : String × α} (h : p ∈ insertKey key value entries) : p = (key, value) ∨ p ∈ entries := by
  induction entries with
  | nil => simpa [insertKey] using h
  | cons e rest ih =>
    obtain ⟨k, a⟩ := e
    unfold insertKey at h
    split at h
    · simpa using h
    · split at h
      · rcases List.mem_cons.mp h with h | h
        · exact Or.inl h
        · exact Or.inr (List.mem_cons_of_mem _ h)
      · rcases List.mem_cons.mp h with h | h
        · exact Or.inr (h ▸ List.mem_cons_self)
        · rcases ih h with h | h
          · exact Or.inl h
          · exact Or.inr (List.mem_cons_of_mem _ h)

theorem mem_of_mem_eraseKey {α : Type u} {key : String} {entries : List (String × α)}
    {p : String × α} (h : p ∈ eraseKey key entries) : p ∈ entries := by
  induction entries with
  | nil => simp [eraseKey] at h
  | cons e rest ih =>
    obtain ⟨k, a⟩ := e
    unfold eraseKey at h
    split at h
    · exact List.mem_cons_of_mem _ h
    · rcases List.mem_cons.mp h with h | h
      · exact h ▸ List.mem_cons_self
      · exact List.mem_cons_of_mem _ (ih h)

/-- Of two names neither of which is less, both are the same. -/
theorem name_eq_of_not_lt {a b : String} (h : ¬a < b) (h' : ¬b < a) : a = b :=
  String.le_antisymm (String.not_lt.mp h') (String.not_lt.mp h)

theorem sorted_insertKey {α : Type u} (key : String) (value : α) {entries : List (String × α)}
    (h : Sorted entries) : Sorted (insertKey key value entries) := by
  induction entries with
  | nil => simp [insertKey, Sorted]
  | cons e rest ih =>
    obtain ⟨k, a⟩ := e
    have hk := List.pairwise_cons.mp h
    unfold insertKey
    split
    · rename_i hlt
      apply List.pairwise_cons.mpr
      refine ⟨?_, h⟩
      intro p hp
      rcases List.mem_cons.mp hp with hp | hp
      · exact hp ▸ hlt
      · exact String.lt_trans hlt (hk.1 p hp)
    · split
      · rename_i heq
        exact List.pairwise_cons.mpr ⟨fun p hp => heq ▸ hk.1 p hp, hk.2⟩
      · rename_i hnlt hne
        apply List.pairwise_cons.mpr
        refine ⟨?_, ih hk.2⟩
        intro p hp
        rcases mem_insertKey hp with hp | hp
        · subst hp
          apply Classical.byContradiction
          intro hkn
          exact hne (name_eq_of_not_lt hnlt hkn)
        · exact hk.1 p hp

theorem sorted_eraseKey {α : Type u} (key : String) {entries : List (String × α)}
    (h : Sorted entries) : Sorted (eraseKey key entries) := by
  induction entries with
  | nil => simp [eraseKey, Sorted]
  | cons e rest ih =>
    obtain ⟨k, a⟩ := e
    have hk := List.pairwise_cons.mp h
    unfold eraseKey
    split
    · exact hk.2
    · exact List.pairwise_cons.mpr
        ⟨fun p hp => hk.1 p (mem_of_mem_eraseKey hp), ih hk.2⟩

theorem lookupKey_eq_none {α : Type u} {key : String} {entries : List (String × α)}
    (h : ∀ p ∈ entries, key < p.1) : lookupKey key entries = none := by
  induction entries with
  | nil => rfl
  | cons e rest ih =>
    obtain ⟨k, a⟩ := e
    have hk : key < k := h _ List.mem_cons_self
    have hne : key ≠ k := fun heq => String.lt_irrefl k (heq ▸ hk)
    simp [lookupKey, hne, ih (fun p hp => h p (List.mem_cons_of_mem _ hp))]

theorem lookupKey_insertKey {α : Type u} (key other : String) (value : α)
    (entries : List (String × α)) :
    lookupKey other (insertKey key value entries) =
      if other = key then some value else lookupKey other entries := by
  induction entries with
  | nil => simp [insertKey, lookupKey]
  | cons e rest ih =>
    obtain ⟨k, a⟩ := e
    unfold insertKey
    split
    · simp [lookupKey]
    · split
      · rename_i heq
        subst heq
        by_cases h : other = key <;> simp [lookupKey, h]
      · rename_i hne
        by_cases h : other = k
        · subst h
          simp [lookupKey, Ne.symm hne]
        · simp [lookupKey, h, ih]

theorem lookupKey_eraseKey {α : Type u} (key other : String) {entries : List (String × α)}
    (h : Sorted entries) :
    lookupKey other (eraseKey key entries) =
      if other = key then none else lookupKey other entries := by
  induction entries with
  | nil => simp [eraseKey, lookupKey]
  | cons e rest ih =>
    obtain ⟨k, a⟩ := e
    have hk := List.pairwise_cons.mp h
    unfold eraseKey
    split
    · rename_i heq
      subst heq
      by_cases ho : other = key
      · subst ho
        simp [lookupKey_eq_none hk.1]
      · simp [lookupKey, ho]
    · rename_i hne
      by_cases ho : other = k
      · subst ho
        simp [lookupKey, Ne.symm hne]
      · simp [lookupKey, ho, ih hk.2]

theorem lookupKey_of_mem {α : Type u} {key : String} {value : α} {entries : List (String × α)}
    (h : Sorted entries) (hm : (key, value) ∈ entries) : lookupKey key entries = some value := by
  induction entries with
  | nil => simp at hm
  | cons e rest ih =>
    obtain ⟨k, a⟩ := e
    have hk := List.pairwise_cons.mp h
    rcases List.mem_cons.mp hm with hm | hm
    · cases hm
      simp [lookupKey]
    · have hlt : k < key := hk.1 _ hm
      have hne : key ≠ k := fun heq => String.lt_irrefl k (heq ▸ hlt)
      simp [lookupKey, hne, ih hk.2 hm]

theorem mem_of_lookupKey {α : Type u} {key : String} {value : α} {entries : List (String × α)}
    (h : lookupKey key entries = some value) : (key, value) ∈ entries := by
  induction entries with
  | nil => simp [lookupKey] at h
  | cons e rest ih =>
    obtain ⟨k, a⟩ := e
    unfold lookupKey at h
    split at h
    · rename_i heq
      cases h
      exact heq ▸ List.mem_cons_self
    · exact List.mem_cons_of_mem _ (ih h)

/-- A sorted list is determined by what it binds. -/
theorem sorted_ext {α : Type u} {xs ys : List (String × α)} (hx : Sorted xs) (hy : Sorted ys)
    (h : ∀ key, lookupKey key xs = lookupKey key ys) : xs = ys := by
  induction xs generalizing ys with
  | nil =>
    cases ys with
    | nil => rfl
    | cons e rest =>
      have := h e.1
      simp [lookupKey] at this
  | cons e xs ih =>
    obtain ⟨k, a⟩ := e
    cases ys with
    | nil =>
      have := h k
      simp [lookupKey] at this
    | cons f ys =>
      obtain ⟨l, b⟩ := f
      have hkx := List.pairwise_cons.mp hx
      have hly := List.pairwise_cons.mp hy
      have hkl : k = l := by
        apply name_eq_of_not_lt
        · intro hlt
          have hnone : lookupKey k ((l, b) :: ys) = none := by
            apply lookupKey_eq_none
            intro p hp
            rcases List.mem_cons.mp hp with hp | hp
            · exact hp ▸ hlt
            · exact String.lt_trans hlt (hly.1 p hp)
          have := h k
          rw [hnone] at this
          simp [lookupKey] at this
        · intro hlt
          have hnone : lookupKey l ((k, a) :: xs) = none := by
            apply lookupKey_eq_none
            intro p hp
            rcases List.mem_cons.mp hp with hp | hp
            · exact hp ▸ hlt
            · exact String.lt_trans hlt (hkx.1 p hp)
          have := h l
          rw [hnone] at this
          simp [lookupKey] at this
      subst hkl
      have hab : a = b := by simpa [lookupKey] using h k
      subst hab
      have : xs = ys := by
        apply ih hkx.2 hly.2
        intro key
        by_cases hkey : key = k
        · subst hkey
          rw [lookupKey_eq_none hkx.1, lookupKey_eq_none hly.1]
        · simpa [lookupKey, hkey] using h key
      rw [this]

/-! ## Maps from names -/

/-- A finite map from names, its entries in strictly increasing order of the names. -/
structure KeyMap (α : Type u) where
  /-- The bindings, in order. -/
  entries : List (String × α)
  sorted : Sorted entries
  deriving DecidableEq

namespace KeyMap

variable {α : Type u} {β : Type v}

/-- The map that binds nothing. -/
def empty : KeyMap α := ⟨[], List.Pairwise.nil⟩

instance : Inhabited (KeyMap α) := ⟨empty⟩

/-- The value bound to `key`, if any. -/
def get? (m : KeyMap α) (key : String) : Option α := lookupKey key m.entries

/-- Bind `key`; an earlier binding of the same key is replaced. -/
def insert (m : KeyMap α) (key : String) (value : α) : KeyMap α :=
  ⟨insertKey key value m.entries, sorted_insertKey key value m.sorted⟩

/-- Remove the binding of `key`, if there is one. -/
def erase (m : KeyMap α) (key : String) : KeyMap α :=
  ⟨eraseKey key m.entries, sorted_eraseKey key m.sorted⟩

/-- The bound names, in order. -/
def keys (m : KeyMap α) : List String := m.entries.map Prod.fst

/-- The bound values, in the order of their names. -/
def values (m : KeyMap α) : List α := m.entries.map Prod.snd

/-- How many names are bound. -/
def size (m : KeyMap α) : Nat := m.entries.length

/-- Whether nothing is bound. -/
def isEmpty (m : KeyMap α) : Bool := m.entries.isEmpty

/-- Whether `key` is bound. -/
def contains (m : KeyMap α) (key : String) : Bool := (m.get? key).isSome

/-- Bind each pair in turn, so the last pair for a key wins. -/
def ofList (pairs : List (String × α)) : KeyMap α :=
  pairs.foldl (fun m p => m.insert p.1 p.2) empty

theorem sorted_map (f : String → α → β) {entries : List (String × α)} (h : Sorted entries) :
    Sorted (entries.map (fun p => (p.1, f p.1 p.2))) :=
  List.pairwise_map.mpr h

/-- Change every value, leaving the names alone. -/
def mapValues (f : String → α → β) (m : KeyMap α) : KeyMap β :=
  ⟨m.entries.map (fun p => (p.1, f p.1 p.2)), sorted_map f m.sorted⟩

@[simp] theorem get?_empty (key : String) : (empty : KeyMap α).get? key = none := rfl

@[simp] theorem get?_insert (m : KeyMap α) (key other : String) (value : α) :
    (m.insert key value).get? other = if other = key then some value else m.get? other :=
  lookupKey_insertKey key other value m.entries

@[simp] theorem get?_erase (m : KeyMap α) (key other : String) :
    (m.erase key).get? other = if other = key then none else m.get? other :=
  lookupKey_eraseKey key other m.sorted

theorem lookupKey_map (f : String → α → β) (key : String) (entries : List (String × α)) :
    lookupKey key (entries.map (fun p => (p.1, f p.1 p.2))) = (lookupKey key entries).map (f key) := by
  induction entries with
  | nil => rfl
  | cons e rest ih =>
    rw [List.map_cons, lookupKey, lookupKey, ih]
    by_cases hk : key = e.1
    · rw [if_pos hk, if_pos hk, hk]
      rfl
    · rw [if_neg hk, if_neg hk]

@[simp] theorem get?_mapValues (f : String → α → β) (m : KeyMap α) (key : String) :
    (m.mapValues f).get? key = (m.get? key).map (f key) :=
  lookupKey_map f key m.entries

/-- The entries are exactly the bindings. -/
theorem mem_entries_iff {m : KeyMap α} {key : String} {value : α} :
    (key, value) ∈ m.entries ↔ m.get? key = some value :=
  ⟨lookupKey_of_mem m.sorted, mem_of_lookupKey⟩

/-- The keys are exactly the names that are bound. -/
theorem mem_keys_iff {m : KeyMap α} {key : String} : key ∈ m.keys ↔ ∃ value, m.get? key = some value := by
  rw [keys, List.mem_map]
  constructor
  · rintro ⟨⟨_, value⟩, hentry, rfl⟩
    exact ⟨value, mem_entries_iff.mp hentry⟩
  · rintro ⟨value, hvalue⟩
    exact ⟨(key, value), mem_entries_iff.mpr hvalue, rfl⟩

/-- The keys increase. -/
theorem pairwise_keys (m : KeyMap α) : m.keys.Pairwise (· < ·) := List.pairwise_map.mpr m.sorted

/-- Two maps with the same bindings are equal. -/
theorem ext_get? {m n : KeyMap α} (h : ∀ key, m.get? key = n.get? key) : m = n := by
  cases m with
  | mk xs hx =>
    cases n with
    | mk ys hy =>
      have : xs = ys := sorted_ext hx hy h
      subst this
      rfl

/-- Of two bindings for a key the later one counts. -/
theorem insert_insert (m : KeyMap α) (key : String) (value later : α) :
    (m.insert key value).insert key later = m.insert key later := by
  apply ext_get?
  intro other
  by_cases h : other = key <;> simp [h]

/-- Bindings for different keys can be made in either order. -/
theorem insert_comm (m : KeyMap α) {key other : String} (h : key ≠ other) (value value' : α) :
    (m.insert key value).insert other value' = (m.insert other value').insert key value := by
  apply ext_get?
  intro k
  by_cases hk : k = key
  · simp [hk, h]
  · simp [hk]

end KeyMap

/-! ## Sets of names -/

/-- Put a name at its place in a sorted list of names. -/
def insertName (name : String) : List String → List String
  | [] => [name]
  | n :: rest =>
    if name < n then name :: n :: rest
    else if name = n then n :: rest
    else n :: insertName name rest

theorem mem_insertName {name other : String} {names : List String} :
    other ∈ insertName name names ↔ other = name ∨ other ∈ names := by
  induction names with
  | nil => simp [insertName]
  | cons n rest ih =>
    unfold insertName
    split
    · simp
    · split
      · rename_i h
        subst h
        simp
      · simp [ih, or_left_comm]

theorem pairwise_insertName (name : String) {names : List String}
    (h : names.Pairwise (· < ·)) : (insertName name names).Pairwise (· < ·) := by
  induction names with
  | nil => simp [insertName]
  | cons n rest ih =>
    have hn := List.pairwise_cons.mp h
    unfold insertName
    split
    · rename_i hlt
      apply List.pairwise_cons.mpr
      refine ⟨?_, h⟩
      intro p hp
      rcases List.mem_cons.mp hp with hp | hp
      · exact hp ▸ hlt
      · exact String.lt_trans hlt (hn.1 p hp)
    · split
      · exact h
      · rename_i hnlt hne
        apply List.pairwise_cons.mpr
        refine ⟨?_, ih hn.2⟩
        intro p hp
        rcases mem_insertName.mp hp with hp | hp
        · subst hp
          apply Classical.byContradiction
          intro h'
          exact hne (name_eq_of_not_lt hnlt h')
        · exact hn.1 p hp

/-- Strictly increasing lists with the same members are the same list. -/
theorem increasing_ext {xs ys : List String} (hx : xs.Pairwise (· < ·)) (hy : ys.Pairwise (· < ·))
    (h : ∀ name, name ∈ xs ↔ name ∈ ys) : xs = ys := by
  induction xs generalizing ys with
  | nil =>
    cases ys with
    | nil => rfl
    | cons y ys =>
      have := (h y).mpr List.mem_cons_self
      simp at this
  | cons x xs ih =>
    cases ys with
    | nil =>
      have := (h x).mp List.mem_cons_self
      simp at this
    | cons y ys =>
      have hx' := List.pairwise_cons.mp hx
      have hy' := List.pairwise_cons.mp hy
      have hxy : x = y := by
        rcases List.mem_cons.mp ((h x).mp List.mem_cons_self) with hm | hm
        · exact hm
        · rcases List.mem_cons.mp ((h y).mpr List.mem_cons_self) with hm' | hm'
          · exact hm'.symm
          · exact absurd (hx'.1 y hm') (String.lt_asymm (hy'.1 x hm))
      subst hxy
      have : xs = ys := by
        apply ih hx'.2 hy'.2
        intro name
        constructor
        · intro hm
          rcases List.mem_cons.mp ((h name).mp (List.mem_cons_of_mem _ hm)) with he | hm'
          · exact absurd (hx'.1 name hm) (he ▸ String.lt_irrefl _)
          · exact hm'
        · intro hm
          rcases List.mem_cons.mp ((h name).mpr (List.mem_cons_of_mem _ hm)) with he | hm'
          · exact absurd (hy'.1 name hm) (he ▸ String.lt_irrefl _)
          · exact hm'
      rw [this]

/-- A finite set of names, listed in strictly increasing order. -/
structure KeySet where
  /-- The members, in order. -/
  toList : List String
  increasing : toList.Pairwise (· < ·)
  deriving DecidableEq

namespace KeySet

/-- The set without members. -/
def empty : KeySet := ⟨[], List.Pairwise.nil⟩

instance : Inhabited KeySet := ⟨empty⟩

instance : Membership String KeySet := ⟨fun s name => name ∈ s.toList⟩

instance (name : String) (s : KeySet) : Decidable (name ∈ s) :=
  inferInstanceAs (Decidable (name ∈ s.toList))

/-- Add a name. -/
def insert (s : KeySet) (name : String) : KeySet :=
  ⟨insertName name s.toList, pairwise_insertName name s.increasing⟩

/-- Add every name of a list. -/
def union (s : KeySet) (names : List String) : KeySet := names.foldl insert s

/-- The set of the names of a list. -/
def ofList (names : List String) : KeySet := empty.union names

/-- Whether there is no member. -/
def isEmpty (s : KeySet) : Bool := s.toList.isEmpty

@[simp] theorem mem_toList {name : String} {s : KeySet} : name ∈ s.toList ↔ name ∈ s := Iff.rfl

@[simp] theorem not_mem_empty (name : String) : name ∉ empty := by
  intro h
  cases h

@[simp] theorem mem_insert {name other : String} {s : KeySet} :
    other ∈ s.insert name ↔ other = name ∨ other ∈ s := mem_insertName

@[simp] theorem mem_union {name : String} {s : KeySet} {names : List String} :
    name ∈ s.union names ↔ name ∈ s ∨ name ∈ names := by
  induction names generalizing s with
  | nil => simp [union]
  | cons n rest ih =>
    have : s.union (n :: rest) = (s.insert n).union rest := rfl
    rw [this, ih, mem_insert, List.mem_cons]
    constructor
    · rintro ((h | h) | h)
      · exact Or.inr (Or.inl h)
      · exact Or.inl h
      · exact Or.inr (Or.inr h)
    · rintro (h | h | h)
      · exact Or.inl (Or.inr h)
      · exact Or.inl (Or.inl h)
      · exact Or.inr h

/-- Sets with the same members are equal. -/
theorem ext_mem {s t : KeySet} (h : ∀ name, name ∈ s ↔ name ∈ t) : s = t := by
  cases s with
  | mk xs hx =>
    cases t with
    | mk ys hy =>
      have : xs = ys := increasing_ext hx hy h
      subst this
      rfl

end KeySet

end TableSpec
