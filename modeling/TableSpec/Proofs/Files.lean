import TableSpec.Files
import TableSpec.Text.Utf8

/-!
# `Proofs.Files` — files that are written and read

A path leads through directories, and a file is never put in the place of one. So what is written to a path
stands in the way of nothing: the path leads to the same place afterwards, and there is the text.

## Contents
- `Files.Accepts`: a file may be written to a path. `write_eq_ok_iff`: such a write succeeds, and no other.
- `isDirectory_withFile`: a new file leaves all directories as they are.
- `place?_withFile`, `contains_write`, `readText_write`: a path after a text was written to it.
- `get?_write`: what is under all other keys.
-/

namespace TableSpec
namespace Files

variable {t t' : Files} {p other : Place} {path text : String} {bytes : ByteArray}

/-! ## Writing -/

/-- A file may be written at a place: it is in a directory and is none. -/
structure Room (t : Files) (p : Place) : Prop where
  file : t.isDirectory p = false
  inside : t.isDirectory p.dropLast = true

/-- A file may be written to a path. -/
def Accepts (t : Files) (path : String) : Prop := ∃ p, t.place? path = some p ∧ t.Room p

/-- The tree with another file at a place. -/
def withFile (t : Files) (p : Place) (bytes : ByteArray) : Files := ⟨t.entries.insert p.key (.file bytes)⟩

theorem room_iff : t.Room p ↔ ¬(t.isDirectory p || !t.isDirectory p.dropLast) = true := by
  constructor
  · intro h
    simp [h.file, h.inside]
  · intro h
    simp only [Bool.or_eq_true, Bool.not_eq_true', not_or, Bool.not_eq_true, Bool.not_eq_false] at h
    exact ⟨h.1, h.2⟩

/-- A write succeeds where there is room for a file, and puts the file there. -/
theorem write_eq_ok : t.write path text = .ok t' ↔
    ∃ p, t.place? path = some p ∧ t.Room p ∧ t' = t.withFile p text.toUTF8 := by
  unfold write
  cases hplace : t.place? path with
  | none => simp
  | some p =>
    simp only [Option.some.injEq, exists_eq_left', room_iff]
    split
    · rename_i hcond
      simp [hcond]
    · rename_i hcond
      rw [Except.ok.injEq, and_iff_right hcond]
      exact eq_comm

/-- Whether a write succeeds does not depend on the text. -/
theorem write_eq_ok_iff : (∃ t', t.write path text = .ok t') ↔ t.Accepts path := by
  constructor
  · rintro ⟨t', h⟩
    obtain ⟨p, hp, hroom, -⟩ := write_eq_ok.mp h
    exact ⟨p, hp, hroom⟩
  · rintro ⟨p, hp, hroom⟩
    exact ⟨_, write_eq_ok.mpr ⟨p, hp, hroom, rfl⟩⟩

/-! ## Places in a tree with a new file -/

theorem not_isFixed_of_room (h : t.Room p) : p.isFixed = false := by
  cases hfixed : p.isFixed with
  | false => rfl
  | true =>
    have hfile := h.file
    rw [isDirectory, at?, if_pos hfixed] at hfile
    exact absurd hfile (by decide)

/-- What is at a place that is no directory in every tree depends on its key only. -/
theorem at?_congr (hp : p.isFixed = false) (hother : other.isFixed = false) (hkey : p.key = other.key) :
    t.at? p = t.at? other := by
  have hinside : ∀ {r : Place}, r.isFixed = false → r.inside = r.key.toList ++ ['/'] := by
    intro r hr
    obtain ⟨hroot, hall⟩ := Bool.or_eq_false_iff.mp hr
    have hne : r.isEmpty = false := by
      cases r with
      | nil => exact absurd hall (by decide)
      | cons name rest => rfl
    rw [Place.inside, hne, hroot]
    rfl
  rw [at?, at?, hp, hother, hinside hp, hinside hother, hkey]

theorem get?_withFile (t : Files) (p : Place) (bytes : ByteArray) (key : String) :
    (t.withFile p bytes).entries.get? key = if key = p.key then some (.file bytes) else t.entries.get? key :=
  KeyMap.get?_insert _ _ _ _

theorem at?_withFile (h : t.Room p) (bytes : ByteArray) : (t.withFile p bytes).at? p = some (.file bytes) := by
  rw [at?, not_isFixed_of_room h, get?_withFile, if_pos rfl]
  rfl

theorem mem_keys_withFile {key : String} (h : key ∈ t.entries.keys) (p : Place) (bytes : ByteArray) :
    key ∈ (t.withFile p bytes).entries.keys := by
  obtain ⟨entry, hentry⟩ := KeyMap.mem_keys_iff.mp h
  rw [KeyMap.mem_keys_iff, get?_withFile]
  split
  · exact ⟨_, rfl⟩
  · exact ⟨entry, hentry⟩

/-- A directory has an entry of its own, or is on the way to one. -/
theorem isDirectory_iff (hp : p.isFixed = false) : t.isDirectory p = true ↔
    t.entries.get? p.key = some .directory ∨
      t.entries.get? p.key = none ∧ ∃ key ∈ t.entries.keys, p.inside.isPrefixOf key.toList = true := by
  rw [isDirectory, at?, hp, ← List.any_eq_true]
  cases hentry : t.entries.get? p.key with
  | some entry => cases entry <;> simp
  | none => cases t.entries.keys.any (fun key => p.inside.isPrefixOf key.toList) <;> simp

/-- **A new file leaves all directories as they are.** -/
theorem isDirectory_withFile (h : t.Room p) (bytes : ByteArray) (hother : t.isDirectory other = true) :
    (t.withFile p bytes).isDirectory other = true := by
  cases hfixed : other.isFixed with
  | true =>
    rw [isDirectory, at?, hfixed]
    rfl
  | false =>
    -- a directory with the key of the file would be in the place of the file
    have hkey : other.key ≠ p.key := by
      intro hkey
      have hfile := h.file
      rw [isDirectory, ← at?_congr hfixed (not_isFixed_of_room h) hkey] at hfile
      exact absurd hother (Bool.eq_false_iff.mp hfile)
    rw [isDirectory_iff hfixed, get?_withFile, if_neg hkey]
    refine ((isDirectory_iff hfixed).mp hother).imp_right ?_
    rintro ⟨hnone, key, hmem, hprefix⟩
    exact ⟨hnone, key, mem_keys_withFile hmem p bytes, hprefix⟩

/-- A way through directories leads to the same place where they still are. -/
theorem foldlM_next (hdirectory : ∀ q, t.isDirectory q = true → t'.isDirectory q = true) (names : List String)
    (start : Place)
    (h : names.foldlM (fun p name => if t.isDirectory p then some (p.next name) else none) start = some p) :
    names.foldlM (fun p name => if t'.isDirectory p then some (p.next name) else none) start = some p := by
  induction names generalizing start with
  | nil => exact h
  | cons name rest ih =>
    rw [List.foldlM_cons] at h ⊢
    by_cases hstart : t.isDirectory start = true
    · rw [if_pos hstart] at h
      rw [if_pos (hdirectory start hstart)]
      exact ih _ h
    · rw [if_neg hstart] at h
      exact absurd h (by simp)

/-- A new file changes no path: the directories on the way are there as before. -/
theorem place?_withFile (hp : t.place? path = some p) (h : t.Room p) (bytes : ByteArray) :
    (t.withFile p bytes).place? path = some p := by
  unfold place? at hp ⊢
  cases hempty : path.isEmpty with
  | true => simp [hempty] at hp
  | false =>
    simp only [hempty, Bool.false_eq_true, if_false] at hp ⊢
    exact foldlM_next (fun _ => isDirectory_withFile h bytes) _ _ hp

/-! ## Reading what was written -/

/-- What was written is what the path leads to. -/
theorem entry?_write (h : t.write path text = .ok t') : entry? t' path = some (.file text.toUTF8) := by
  obtain ⟨p, hp, hroom, rfl⟩ := write_eq_ok.mp h
  unfold entry?
  rw [place?_withFile hp hroom, Option.bind_some, at?_withFile hroom]

theorem contains_write (h : t.write path text = .ok t') : t'.contains path = true := by
  rw [contains, entry?_write h]
  rfl

/-- A file that holds the bytes of a text is read as this text. -/
theorem readText_of_entry (h : t.entry? path = some (.file text.toUTF8)) : t.readText path = .ok text := by
  rw [readText, h]
  dsimp only
  rw [fromUTF8?_toUTF8]

/-- **The text that was written to a file is read from it.** -/
theorem readText_write (h : t.write path text = .ok t') : t'.readText path = .ok text :=
  readText_of_entry (entry?_write h)

/-- Nothing but the file at the path has changed. -/
theorem get?_write (h : t.write path text = .ok t') {key : String} (hkey : ∀ p, t.place? path = some p → key ≠ p.key) :
    t'.entries.get? key = t.entries.get? key := by
  obtain ⟨p, hp, -, rfl⟩ := write_eq_ok.mp h
  rw [get?_withFile, if_neg (hkey p hp)]

end Files
end TableSpec
