import TableSpec.Error

/-!
# `Proofs.InPlace` — operations that work on a value in place

The operations of catalogs and databases are functions: they give a new value, or an error and no value. A
holder that changes its value in place gives itself up to more: what an operation has done before it fails
stays done. `InPlace` are the operations of such a holder, and `Realizes` says that one of them is as good as
the function: it succeeds with what the function gives, and where the function fails it leaves no trace.

## Contents
- `InPlace`, `InPlace.ofResult`, and `InPlace.run` with one equation for each way to make an operation. `run_forM`:
  loops.
- `InPlace.outcome`: what a holder sees of a function. `InPlace.Realizes`: an operation that does what a function
  says; `run_of_ok`, `run_of_error`, `answers`.
-/

namespace TableSpec

/-- An operation on a value that is changed in place. The value is there afterwards in any case. -/
abbrev InPlace (σ α : Type) := ExceptT Error (StateM σ) α

namespace InPlace

variable {σ α β : Type}

/-- A step that only has a result. -/
def ofResult (x : Except Error α) : InPlace σ α := ExceptT.mk (pure x)

/-! ## Runs -/

/-- The result of an operation on a value, and the value afterwards. -/
def run (action : InPlace σ α) (s : σ) : Except Error α × σ := action s

/-- What has been done before an error is not undone. -/
theorem run_bind (action : InPlace σ α) (next : α → InPlace σ β) (s : σ) :
    (action >>= next).run s = match action.run s with
      | (.ok a, s') => (next a).run s'
      | (.error e, s') => (.error e, s') := by
  show (match action s with | (r, s') => ExceptT.bindCont next r s') = _
  unfold run
  cases action s with
  | mk r s' => cases r <;> rfl

@[simp] theorem run_pure (a : α) (s : σ) : (pure a : InPlace σ α).run s = (.ok a, s) := rfl

@[simp] theorem run_get (s : σ) : (get : InPlace σ σ).run s = (.ok s, s) := rfl

@[simp] theorem run_modify (f : σ → σ) (s : σ) : (modify f : InPlace σ Unit).run s = (.ok (), f s) := rfl

@[simp] theorem run_ofResult (x : Except Error α) (s : σ) : (ofResult x).run s = (x, s) := rfl

/-- A loop changes a part of the value as its steps do, when each step changes this part and nothing else. -/
theorem run_forM {body : α → InPlace σ Unit} {put : β → σ} {step : β → α → β}
    (h : ∀ b a, (body a).run (put b) = (.ok (), put (step b a))) (as : List α) (b : β) :
    (as.forM body).run (put b) = (.ok (), put (as.foldl step b)) := by
  induction as generalizing b with
  | nil => rfl
  | cons a rest ih =>
    show (body a >>= fun _ => rest.forM body).run (put b) = _
    rw [run_bind, h b a]
    exact ih (step b a)

/-! ## Functions as operations -/

/-- What a holder sees of a function that gives a new value or an error: whether it succeeded, and the value
    that is there afterwards. -/
def outcome (f : σ → Except Error σ) (s : σ) : Except Error Unit × σ :=
  match f s with
  | .ok s' => (.ok (), s')
  | .error e => (.error e, s)

theorem outcome_of_ok {f : σ → Except Error σ} {s s' : σ} (h : f s = .ok s') : outcome f s = (.ok (), s') := by
  unfold outcome
  rw [h]

theorem outcome_of_error {f : σ → Except Error σ} {s : σ} {e : Error} (h : f s = .error e) :
    outcome f s = (.error e, s) := by
  unfold outcome
  rw [h]

/-- The operation does what the function says, or fails without a trace. -/
def Realizes (action : InPlace σ Unit) (f : σ → Except Error σ) : Prop :=
  ∀ s, action.run s = outcome f s

/-- Where the function gives a value, the operation succeeds and leaves this value. -/
theorem Realizes.run_of_ok {action : InPlace σ Unit} {f : σ → Except Error σ} (h : Realizes action f)
    {s s' : σ} (hok : f s = .ok s') : action.run s = (.ok (), s') := by
  rw [h s, outcome_of_ok hok]

/-- Where the function fails, the operation fails in the same way and leaves the value as it was. -/
theorem Realizes.run_of_error {action : InPlace σ Unit} {f : σ → Except Error σ} (h : Realizes action f)
    {s : σ} {e : Error} (herror : f s = .error e) : action.run s = (.error e, s) := by
  rw [h s, outcome_of_error herror]

/-- What an operation answers and what it leaves, in either case. -/
theorem Realizes.answers {action : InPlace σ Unit} {f : σ → Except Error σ} (h : Realizes action f) (s : σ) :
    (∀ s', f s = .ok s' → (action.run s).1 = .ok () ∧ (action.run s).2 = s') ∧
    ∀ e, f s = .error e → (action.run s).1 = .error e ∧ (action.run s).2 = s := by
  refine ⟨fun s' hok => ?_, fun e herror => ?_⟩
  · rw [h.run_of_ok hok]
    exact ⟨rfl, rfl⟩
  · rw [h.run_of_error herror]
    exact ⟨rfl, rfl⟩

/-- Only a value that the function gives takes the place of the old one. -/
theorem Realizes.after {action : InPlace σ Unit} {f : σ → Except Error σ} (h : Realizes action f) (s : σ) :
    f s = .ok (action.run s).2 ∨ (∃ e, f s = .error e) ∧ (action.run s).2 = s := by
  cases hf : f s with
  | ok s' => exact Or.inl (by rw [h.run_of_ok hf])
  | error e => exact Or.inr ⟨⟨e, rfl⟩, by rw [h.run_of_error hf]⟩

theorem Realizes.eq_error_iff {action : InPlace σ Unit} {f : σ → Except Error σ} (h : Realizes action f)
    {s : σ} {e : Error} : (action.run s).1 = .error e ↔ f s = .error e := by
  rw [h s]
  cases hf : f s with
  | ok s' => simp [outcome_of_ok hf]
  | error e' => simp [outcome_of_error hf]

theorem Realizes.eq_ok_iff {action : InPlace σ Unit} {f : σ → Except Error σ} (h : Realizes action f) {s : σ} :
    (action.run s).1 = .ok () ↔ f s = .ok (action.run s).2 := by
  rw [h s]
  cases hf : f s with
  | ok s' => simp [outcome_of_ok hf]
  | error e' => simp [outcome_of_error hf]

/-- A failure leaves no trace. -/
theorem Realizes.unchanged {action : InPlace σ Unit} {f : σ → Except Error σ} (h : Realizes action f)
    {s : σ} {e : Error} (he : (action.run s).1 = .error e) : (action.run s).2 = s := by
  rw [h.run_of_error (h.eq_error_iff.mp he)]

end InPlace
end TableSpec
