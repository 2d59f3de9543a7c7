import TableSpec.Proofs.Ingest.Step

/-!
# `Proofs.Ingest.Progress` — the pipeline always winds down

Two facts carry everything: every step makes `Pipeline.remaining` less (`step_remaining_lt`), so no run goes
on for ever, and a state in which some thread has not stopped is never stuck (`exists_step`). The second one
holds because a thread waits for one of three things only, and somebody else can move in each case: a worker
without paths waits for the walker, a walker in front of a full queue of paths for the workers, and whoever
is in front of a full queue of messages for the aggregator.

## Contents
- `step_remaining_lt`: the measure.
- `walker_step`, `worker_step`, `aggregator_move`: when a thread can move.
- `exists_step`, `finished_of_no_move`: a run does not end before all threads have stopped.
- `runFor_ends`, `run_finished`: the run that the library makes itself.
- `winds_down`: everything about the end of a run in one place.
-/

namespace TableSpec
namespace Pipeline

variable {capacity workers : Nat} {extract : String → Except Error Table} {p q : Pipeline}

/-! ## The measure -/

theorem remainingAll_cons (w : Worker) (ws : List Worker) :
    Worker.remainingAll (w :: ws) = w.remaining + Worker.remainingAll ws := rfl

theorem remainingAll_append (ws vs : List Worker) :
    Worker.remainingAll (ws ++ vs) = Worker.remainingAll ws + Worker.remainingAll vs := by
  induction ws with
  | nil => exact (Nat.zero_add _).symm
  | cons w rest ih =>
    rw [List.cons_append, remainingAll_cons, remainingAll_cons, ih]
    omega

/-- One worker's change changes the sum over all of them by as much. -/
theorem remainingAll_set {ws : List Worker} {i : Nat} {w : Worker} (v : Worker) (h : ws[i]? = some w) :
    Worker.remainingAll (ws.set i v) + w.remaining = Worker.remainingAll ws + v.remaining := by
  induction ws generalizing i with
  | nil => simp at h
  | cons u rest ih =>
    cases i with
    | zero =>
      have hu : u = w := by simpa using h
      subst hu
      rw [List.set_cons_zero, remainingAll_cons, remainingAll_cons]
      omega
    | succ i =>
      have hrest := ih (i := i) (by simpa using h)
      rw [List.set_cons_succ, remainingAll_cons, remainingAll_cons]
      omega

/-- **The measure decreases.** Whatever happens, fewer moves are left than before. -/
theorem step_remaining_lt (h : Step capacity extract p q) : q.remaining < p.remaining := by
  cases h with
  | @errand e rest next =>
    unfold remaining afterErrand
    rw [next]
    by_cases he : e = .startWorker
    · have hstarted : Worker.remainingAll (p.workers ++ [.waiting]) = Worker.remainingAll p.workers + 1 :=
        remainingAll_append _ _
      simp only [he, if_true, hstarted, List.length_cons]
      omega
    · simp [he]
  | walkerEnds _ walk => simp [remaining, walk]
  | walkerSends _ walk =>
    simp only [remaining, walk, Option.map_some, Option.getD_some, List.length_cons, List.length_append,
      List.length_nil]
    omega
  | walkerLeaves _ walk => simp [remaining, walk]
  | walkerTells _ walk =>
    simp only [remaining, walk, Option.map_some, Option.map_none, Option.getD_some, Option.getD_none,
      List.length_cons, List.length_append, List.length_nil]
    omega
  | walkerUnheard _ walk => simp [remaining, walk]
  | @workerTakes i path rest worker paths =>
    have hsum := remainingAll_set (.holding (.ofFile extract path)) worker
    simp only [Worker.remaining] at hsum
    simp only [remaining, paths, List.length_cons]
    omega
  | @workerEnds i worker paths walk =>
    have hsum := remainingAll_set .stopped worker
    simp only [Worker.remaining] at hsum
    simp only [remaining]
    omega
  | @workerTells i message worker =>
    have hsum := remainingAll_set .waiting worker
    simp only [Worker.remaining] at hsum
    simp only [remaining, List.length_append, List.length_cons, List.length_nil]
    omega
  | @workerUnheard i message worker =>
    have hsum := remainingAll_set .stopped worker
    simp only [Worker.remaining] at hsum
    simp only [remaining]
    omega
  | records _ _ messages => simp [remaining, messages]
  | rejects _ listening messages =>
    simp only [remaining, messages, listening, List.length_cons, Option.isSome_some, Option.isSome_none, if_true,
      Bool.false_eq_true, if_false]
    omega
  | fails _ listening messages =>
    simp only [remaining, messages, listening, List.length_cons, Option.isSome_some, Option.isSome_none, if_true,
      Bool.false_eq_true, if_false]
    omega
  | completes _ listening => simp [remaining, listening]

/-- No run goes on for ever. -/
theorem exists_no_move (states : Nat → Pipeline) :
    ∃ n, ∀ m, (states n).move? capacity extract m ≠ some (states (n + 1)) := by
  apply Classical.byContradiction
  intro hcon
  have hmove : ∀ n, ∃ m, (states n).move? capacity extract m = some (states (n + 1)) := by
    intro n
    apply Classical.byContradiction
    intro hn
    exact hcon ⟨n, fun m hm => hn ⟨m, hm⟩⟩
  -- the measure would fall by one at least at every step, below zero in the end
  have hfall : ∀ n, (states n).remaining + n ≤ (states 0).remaining := by
    intro n
    induction n with
    | zero => exact Nat.le_refl _
    | succ n ih =>
      have := step_remaining_lt (step_iff_move.mpr (hmove n))
      omega
  have := hfall ((states 0).remaining + 1)
  omega

/-! ## When a thread can move -/

/-- A walker that has been started can move as soon as there is room for a path, or nobody to take it, and
    the same for an error. -/
theorem walker_step (started : .startWalker ∉ p.errands) (walking : p.walk.isSome = true)
    (hpaths : p.isTaking = true → p.paths.length < capacity)
    (hmessages : p.outcome = none → p.messages.length < capacity) :
    ∃ q, Step capacity extract p q := by
  obtain ⟨found, walk⟩ := Option.isSome_iff_exists.mp walking
  match found, walk with
  | [], walk => exact ⟨_, Step.walkerEnds started walk⟩
  | .ok path :: rest, walk =>
    cases taking : p.isTaking with
    | false => exact ⟨_, Step.walkerLeaves started walk taking⟩
    | true => exact ⟨_, Step.walkerSends started walk taking (hpaths taking)⟩
  | .error e :: rest, walk =>
    cases heard : p.outcome with
    | none => exact ⟨_, Step.walkerTells started walk heard (hmessages heard)⟩
    | some _ => exact ⟨_, Step.walkerUnheard started walk (by rw [heard]; rfl)⟩

/-- A worker with something to tell can move as soon as there is room for the message, or nobody to hear
    it. -/
theorem worker_step {i : Nat} {message : Message} (worker : p.workers[i]? = some (.holding message))
    (hmessages : p.outcome = none → p.messages.length < capacity) :
    ∃ q, Step capacity extract p q := by
  cases heard : p.outcome with
  | none => exact ⟨_, Step.workerTells worker heard (hmessages heard)⟩
  | some _ => exact ⟨_, Step.workerUnheard worker (by rw [heard]; rfl)⟩

/-- An aggregator that has been started can move as soon as there is a message, or nobody to send one. -/
theorem aggregator_move (started : .startAggregator ∉ p.errands) (listening : p.outcome = none)
    (h : p.messages = [] → p.isTelling = false) : ∃ q, p.aggregatorMove? = some q := by
  unfold aggregatorMove?
  rw [if_neg (by simp [started, listening])]
  split
  · split
    · exact ⟨_, rfl⟩
    · exact ⟨_, rfl⟩
  · exact ⟨_, rfl⟩
  · rename_i messages
    rw [if_neg (by simp [h messages])]
    exact ⟨_, rfl⟩

/-! ## No state is stuck -/

theorem idle_eq_false (h : p.idle = false) :
    ∃ i : Nat, p.workers[i]? = some .waiting ∨ ∃ message, p.workers[i]? = some (.holding message) := by
  obtain ⟨w, hw, hns⟩ : ∃ w ∈ p.workers, w.isStopped = false := by
    simpa [idle] using h
  obtain ⟨i, hi⟩ := List.getElem?_of_mem hw
  refine ⟨i, ?_⟩
  cases w with
  | waiting => exact Or.inl hi
  | holding message => exact Or.inr ⟨message, hi⟩
  | stopped => exact absurd hns (by simp [Worker.isStopped])

/-- **No state is stuck.** As long as some thread has not stopped, some thread can move. -/
theorem exists_step (extract : String → Except Error Table) (hroom : 0 < capacity) (h : ¬p.Finished) :
    ∃ q, Step capacity extract p q := by
  cases next : p.errands with
  | cons e rest => exact ⟨_, Step.errand next⟩
  | nil =>
    have started : ∀ e, e ∉ p.errands := by simp [next]
    -- the threads are tried from the end of the line to its start: each can move unless one after it can
    -- while there is a message, the aggregator can move, unless it has stopped
    by_cases hmessages : p.outcome = none ∧ p.messages ≠ []
    · obtain ⟨q, hq⟩ := aggregator_move (started _) hmessages.1 (fun hm => absurd hm hmessages.2)
      exact ⟨q, step_of_aggregatorMove hq⟩
    have hfree : p.outcome = none → p.messages.length < capacity := by
      intro listening
      have : p.messages = [] := Classical.byContradiction fun hm => hmessages ⟨listening, hm⟩
      simpa [this] using hroom
    cases hidle : p.idle with
    | false =>
      obtain ⟨i, worker | ⟨message, worker⟩⟩ := idle_eq_false hidle
      · -- a waiting worker takes a path or stops, unless the walker may still find one
        cases paths : p.paths with
        | cons path rest => exact ⟨_, Step.workerTakes worker paths⟩
        | nil =>
          cases walk : p.walk with
          | none => exact ⟨_, Step.workerEnds worker paths walk⟩
          | some found =>
            exact walker_step (started _) (by rw [walk]; rfl) (fun _ => by simpa [paths] using hroom) hfree
      · exact worker_step worker hfree
    -- all workers have stopped: the walker need not wait for room
    | true =>
      have taking : p.isTaking = false := by simp [isTaking, hidle, next]
      cases walk : p.walk with
      | some found =>
        exact walker_step (started _) (by rw [walk]; rfl) (fun ht => absurd ht (by simp [taking])) hfree
      | none =>
        -- only the aggregator is left, and nobody can send it anything
        have listening : p.outcome = none := by
          apply Classical.byContradiction
          intro hsome
          exact h ⟨next, walk, hidle, by simpa [Option.isSome_iff_ne_none] using hsome⟩
        have telling : p.isTelling = false := by simp [isTelling, hidle, next, walk]
        obtain ⟨q, hq⟩ := aggregator_move (started _) listening (fun _ => telling)
        exact ⟨q, step_of_aggregatorMove hq⟩

/-- A state in which nobody can move is one in which all threads have stopped. -/
theorem finished_of_no_move (hroom : 0 < capacity) (h : ∀ m, p.move? capacity extract m = none) :
    p.Finished := by
  apply Classical.byContradiction
  intro hnot
  obtain ⟨q, hq⟩ := exists_step extract hroom hnot
  obtain ⟨m, hm⟩ := step_iff_move.mp hq
  rw [h m] at hm
  exact absurd hm (by simp)

/-! ## The run that the library makes itself -/

theorem mem_turns {m : Move} (h : p.move? capacity extract m = some q) : m ∈ p.turns := by
  cases m with
  | starter => simp [turns]
  | walker => simp [turns]
  | aggregator => simp [turns]
  | worker i =>
    have hi : i < p.workers.length := by
      apply Classical.byContradiction
      intro hlt
      simp [move?, workerMove?, List.getElem?_eq_none (Nat.le_of_not_lt hlt)] at h
    simpa [turns] using hi

/-- With enough fuel, moves are made until nobody can move. -/
theorem runFor_ends : ∀ (fuel : Nat) (p : Pipeline), p.remaining ≤ fuel →
    Reaches capacity extract p (runFor capacity extract fuel p) ∧
      ∀ m, (runFor capacity extract fuel p).move? capacity extract m = none := by
  intro fuel
  induction fuel with
  | zero =>
    intro p hfuel
    refine ⟨Reaches.here, fun m => ?_⟩
    -- a move would take the measure below zero
    cases hm : p.move? capacity extract m with
    | none => simpa [runFor] using hm
    | some q =>
      have := step_remaining_lt (step_iff_move.mpr ⟨m, hm⟩)
      omega
  | succ fuel ih =>
    intro p hfuel
    unfold runFor
    split
    · rename_i next hnext
      -- the first thread that can move in this round does
      obtain ⟨m, -, hm⟩ := List.exists_of_findSome?_eq_some hnext
      have hlt := step_remaining_lt (step_iff_move.mpr ⟨m, hm⟩)
      obtain ⟨hreach, hend⟩ := ih next (by omega)
      exact ⟨(Reaches.move Reaches.here hm).trans hreach, hend⟩
    · rename_i hnone
      refine ⟨Reaches.here, fun m => ?_⟩
      cases hm : p.move? capacity extract m with
      | none => rfl
      | some q =>
        have := List.findSome?_eq_none_iff.mp hnone m (mem_turns hm)
        rw [hm] at this
        exact absurd this (by simp)

/-- The library's own run is one of the runs, and it ends with all threads stopped. -/
theorem run_finished (hroom : 0 < capacity) (p : Pipeline) :
    Reaches capacity extract p (p.run capacity extract) ∧ (p.run capacity extract).Finished := by
  have h := @runFor_ends capacity extract p.remaining p (Nat.le_refl _)
  exact ⟨h.1, finished_of_no_move hroom h.2⟩

/-! ## The aggregator by itself -/

/-- The state after `turns` turns of the aggregator, or after as many as it can take. -/
def aggregate : Nat → Pipeline → Pipeline
  | 0, p => p
  | turns + 1, p =>
    match p.aggregatorMove? with
    | some next => aggregate turns next
    | none => p

/-- What the aggregator leaves alone, and that it uses up a message or stops. -/
theorem aggregatorMove_frame (h : p.aggregatorMove? = some q) :
    q.errands = p.errands ∧ q.walk = p.walk ∧ q.workers = p.workers ∧
      (q.outcome.isSome = true ∨ q.messages.length + 1 = p.messages.length) := by
  unfold aggregatorMove? at h
  split at h
  · exact absurd h (by simp)
  split at h
  · rename_i messages
    split at h
    · cases h
      exact ⟨rfl, rfl, rfl, Or.inr (by simp [messages])⟩
    · cases h
      exact ⟨rfl, rfl, rfl, Or.inl rfl⟩
  · cases h
    exact ⟨rfl, rfl, rfl, Or.inl rfl⟩
  · split at h
    · exact absurd h (by simp)
    · cases h
      exact ⟨rfl, rfl, rfl, Or.inl rfl⟩

theorem aggregatorMove_of_outcome (h : p.outcome.isSome = true) : p.aggregatorMove? = none := by
  unfold aggregatorMove?
  rw [if_pos (by simp [h])]

/-- Once nobody can send messages any more, the aggregator uses up those that are there and stops. -/
theorem aggregate_ends (p : Pipeline) (started : .startAggregator ∉ p.errands) (telling : p.isTelling = false) :
    ∀ turns, p.messages.length < turns → (aggregate turns p).outcome.isSome = true := by
  intro turns
  induction turns generalizing p with
  | zero => exact fun h => absurd h (Nat.not_lt_zero _)
  | succ turns ih =>
    intro hlen
    unfold aggregate
    cases hmove : p.aggregatorMove? with
    | none =>
      apply Classical.byContradiction
      intro hout
      obtain ⟨q, hq⟩ := aggregator_move started (by simpa using hout) (fun _ => telling)
      rw [hmove] at hq
      exact absurd hq (by simp)
    | some q =>
      obtain ⟨herrands, hwalk, hworkers, hout | hless⟩ := aggregatorMove_frame hmove
      -- it has stopped in this turn and makes no move in those that are left
      · show (aggregate turns q).outcome.isSome = true
        cases turns with
        | zero => exact hout
        | succ turns => simpa [aggregate, aggregatorMove_of_outcome hout] using hout
      · refine ih q (herrands ▸ started) ?_ (by omega)
        simpa [isTelling, idle, herrands, hwalk, hworkers] using telling

/-! ## The end of a run -/

/-- **The pipeline always winds down.** Whatever is found, whatever is wrong with it, and in whatever state the
    threads are: as long as some thread has not stopped, some thread can move; every move makes the measure
    less, so that no sequence of moves is infinite; and where moves end, all threads have stopped and there is
    an outcome, as at the end of the run that the library makes itself.

    Nobody waits for ever in front of a full queue: whoever has something to tell can move once the aggregator
    has stopped, and a walker with a path can once nobody takes paths any more, however full the queues are.
    And when the walker and the workers have stopped, the aggregator stops after as many turns as there are
    messages left, and one more. -/
theorem winds_down (hroom : 0 < capacity) (p : Pipeline) :
    (¬p.Finished → ∃ m q, p.move? capacity extract m = some q) ∧
    (∀ m q, p.move? capacity extract m = some q → q.remaining < p.remaining) ∧
    (∀ states : Nat → Pipeline, states 0 = p →
      ∃ n, ∀ m, (states n).move? capacity extract m ≠ some (states (n + 1))) ∧
    (∀ q, Reaches capacity extract p q → (∀ m, q.move? capacity extract m = none) → q.Finished) ∧
    (Reaches capacity extract p (p.run capacity extract) ∧ (p.run capacity extract).Finished) ∧
    (p.outcome.isSome = true →
      (∀ (i : Nat) message, p.workers[i]? = some (.holding message) →
        (p.move? capacity extract (.worker i)).isSome = true) ∧
      (∀ e rest, .startWalker ∉ p.errands → p.walk = some (.error e :: rest) →
        (p.move? capacity extract .walker).isSome = true)) ∧
    (p.isTaking = false → ∀ path rest, .startWalker ∉ p.errands → p.walk = some (.ok path :: rest) →
      (p.move? capacity extract .walker).isSome = true) ∧
    (p.errands = [] → p.walk = none → p.idle = true →
      (aggregate (p.messages.length + 1) p).outcome.isSome = true) := by
  refine ⟨?_, ?_, ?_, ?_, run_finished hroom p, ?_, ?_, ?_⟩
  · intro hnot
    obtain ⟨q, hq⟩ := exists_step extract hroom hnot
    obtain ⟨m, hm⟩ := step_iff_move.mp hq
    exact ⟨m, q, hm⟩
  · exact fun m q hm => step_remaining_lt (step_iff_move.mpr ⟨m, hm⟩)
  · exact fun states _ => exists_no_move states
  · exact fun q _ hend => finished_of_no_move hroom hend
  · intro deaf
    refine ⟨fun i message worker => ?_, fun e rest started walk => ?_⟩
    · simp [move?, workerMove?, worker, deaf]
    · simp [move?, walkerMove?, started, walk, deaf]
  · intro taking path rest started walk
    simp [move?, walkerMove?, started, walk, taking]
  · intro next walk hidle
    exact aggregate_ends p (by simp [next]) (by simp [isTelling, next, walk, hidle]) _ (Nat.lt_succ_self _)

/-- With one place in each queue, two workers, a file that cannot be read and a directory that cannot be
    walked to its end. -/
theorem winds_down_at_first_error :
    0 < 1 ∧ ((start [.ok "linux/a.table", .error .walk] 2).run 1 (fun _ => .error .file)).Finished :=
  ⟨by decide, (winds_down (by decide) _).2.2.2.2.1.2⟩

end Pipeline
end TableSpec
