import TableSpec.Error

/-!
# `Proofs.Result` — results of steps that can fail

What a step that can fail gives is taken apart by saying what the steps in it gave.

## Contents
- `bind_eq_ok`, `bind_eq_error`, `map_eq_ok`, `map_eq_error`, `mapError_eq_ok`, `mapError_eq_error`,
  `exists_of_foldlM_eq_error`, `foldlM_congr`, `decided`.
- `NamesNoFile`: the error of a step, if there is one, names no file; with one lemma for each way in which
  steps are put together.
-/

namespace TableSpec

variable {α β ε ε' : Type}

theorem bind_eq_ok {x : Except ε α} {f : α → Except ε β} {b : β} :
    x.bind f = .ok b ↔ ∃ a, x = .ok a ∧ f a = .ok b := by
  cases x with
  | error e => simp [Except.bind]
  | ok a => simp [Except.bind]

theorem bind_eq_error {x : Except ε α} {f : α → Except ε β} {e : ε} :
    x.bind f = .error e ↔ x = .error e ∨ ∃ a, x = .ok a ∧ f a = .error e := by
  cases x with
  | error e => simp [Except.bind]
  | ok a => simp [Except.bind]

theorem map_eq_ok {x : Except ε α} {f : α → β} {b : β} :
    x.map f = .ok b ↔ ∃ a, x = .ok a ∧ f a = b := by
  cases x with
  | error e => simp [Except.map]
  | ok a => simp [Except.map]

theorem map_eq_error {x : Except ε α} {f : α → β} {e : ε} : x.map f = .error e ↔ x = .error e := by
  cases x with
  | error e => simp [Except.map]
  | ok a => simp [Except.map]

theorem mapError_eq_ok {x : Except ε α} {f : ε → ε'} {a : α} : x.mapError f = .ok a ↔ x = .ok a := by
  cases x with
  | error e =>
    show Except.error (f e) = .ok a ↔ Except.error e = .ok a
    simp
  | ok b =>
    show Except.ok b = .ok a ↔ Except.ok b = .ok a
    simp

theorem mapError_eq_error {x : Except ε α} {f : ε → ε'} {e : ε'} :
    x.mapError f = .error e ↔ ∃ cause, x = .error cause ∧ f cause = e := by
  cases x with
  | error cause =>
    show Except.error (f cause) = .error e ↔ _
    simp
  | ok a =>
    show Except.ok a = .error e ↔ _
    simp

/-- The error of several steps is the error of one of them. -/
theorem exists_of_foldlM_eq_error {f : β → α → Except ε β} {as : List α} {b : β} {e : ε}
    (h : as.foldlM f b = .error e) : ∃ b', ∃ a ∈ as, f b' a = .error e := by
  induction as generalizing b with
  | nil => cases h
  | cons a rest ih =>
    rcases bind_eq_error.mp h with h | ⟨b', -, h⟩
    · exact ⟨b, a, List.mem_cons_self, h⟩
    · obtain ⟨b'', a', ha', h'⟩ := ih h
      exact ⟨b'', a', List.mem_cons_of_mem a ha', h'⟩

/-- Steps that do the same to what is in a list do the same one after the other. -/
theorem foldlM_congr {f g : β → α → Except ε β} {as : List α} (h : ∀ a ∈ as, ∀ b, f b a = g b a)
    (b : β) : as.foldlM f b = as.foldlM g b := by
  induction as generalizing b with
  | nil => rfl
  | cons a rest ih =>
    rw [List.foldlM_cons, List.foldlM_cons, h a List.mem_cons_self]
    congr 1
    funext b'
    exact ih (fun a' ha' => h a' (List.mem_cons_of_mem a ha')) b'

/-- A step is known by when it succeeds and by its errors, when one of the two is always the case. -/
theorem decided {x : Except ε α} {accepted : Prop} {meaning : α → Prop} {fault : ε → Prop}
    (hok : accepted → ∃ a, x = .ok a ∧ meaning a) (herror : ∀ e, fault e → x = .error e)
    (hor : accepted ∨ ∃ e, fault e) :
    ((∃ a, x = .ok a) ↔ accepted) ∧ (∀ a, x = .ok a → meaning a) ∧ (∀ e, x = .error e ↔ fault e) := by
  rcases hor with h | ⟨e, he⟩
  · obtain ⟨a, rfl, ha⟩ := hok h
    refine ⟨⟨fun _ => h, fun _ => ⟨a, rfl⟩⟩, ?_, ?_⟩
    · rintro b ⟨⟩
      exact ha
    · intro e
      constructor
      · intro he
        cases he
      · intro he
        exact herror e he
  · have hx := herror e he
    subst hx
    refine ⟨⟨?_, ?_⟩, ?_, ?_⟩
    · rintro ⟨a, ⟨⟩⟩
    · intro h
      obtain ⟨a, ha, -⟩ := hok h
      exact ⟨a, ha⟩
    · rintro a ⟨⟩
    · intro e'
      constructor
      · rintro ⟨⟩
        exact he
      · intro he'
        exact herror e' he'

/-! ## Errors that name no file -/

/-- The error of a step, if there is one, names no file. -/
def NamesNoFile (x : Except Error α) : Prop := ∀ e, x = .error e → e.isInFile = false

namespace NamesNoFile

theorem ok (a : α) : NamesNoFile (.ok a) := fun _ h => absurd h (by simp)

theorem error {e : Error} (h : e.isInFile = false) : NamesNoFile (.error e : Except Error α) :=
  fun _ he => Except.error.inj he ▸ h

theorem bind {x : Except Error α} {f : α → Except Error β} (hx : NamesNoFile x)
    (hf : ∀ a, NamesNoFile (f a)) : NamesNoFile (x.bind f) := by
  intro e h
  rcases bind_eq_error.mp h with h | ⟨a, -, h⟩
  · exact hx e h
  · exact hf a e h

theorem map {x : Except Error α} {f : α → β} (hx : NamesNoFile x) : NamesNoFile (x.map f) :=
  fun e h => hx e (map_eq_error.mp h)

theorem foldlM {f : β → α → Except Error β} (hf : ∀ b a, NamesNoFile (f b a)) :
    ∀ (as : List α) (b : β), NamesNoFile (as.foldlM f b) := by
  intro as b e h
  obtain ⟨b', a, -, h⟩ := exists_of_foldlM_eq_error h
  exact hf b' a e h

end NamesNoFile
end TableSpec
