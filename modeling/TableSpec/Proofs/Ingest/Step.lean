import TableSpec.Ingest.Pipeline

/-!
# `Proofs.Ingest.Step` — what the threads can do, rule by rule

`Pipeline.move?` says what a thread does when it is its turn, as a function. Here the same is said as a
relation with one rule for everything that can happen, guards included: the invariants of the pipeline are
shown rule by rule, and that it never gets stuck is shown by naming the rule that applies.

## Contents
- `Pipeline.Step` and `step_iff_move`: the relation, and that it is what the moves do.
- `Pipeline.Reaches`: any number of steps, in any order.
- `Pipeline.Finished`: all threads have stopped, and there is an outcome.
- `Errand.ordered`: in which order the errands are done.
-/

namespace TableSpec

variable {capacity workers : Nat} {extract : String → Except Error Table} {p q : Pipeline}

/-! ## Errands -/

/-- What is left of the errands is the end of all of them, so when an errand of the first part is still to be
    done, all of the second part are. -/
theorem Errand.mem_of_suffix {before after errands : List Errand} (h : errands <:+ before ++ after)
    {e : Errand} (hmem : e ∈ errands) (hn : e ∉ after) : ∀ later ∈ after, later ∈ errands := by
  rcases List.suffix_or_suffix_of_suffix h (List.suffix_append before after) with hs | hs
  · exact absurd (hs.subset hmem) hn
  · exact fun later hl => hs.subset hl

/-- **The order of the errands.** Workers are started before the end of the queue of paths is let go of, and
    that before the end of the queue of messages. -/
theorem Errand.ordered {errands : List Errand} (h : errands <:+ Errand.all workers) :
    (Errand.closePaths ∉ errands → Errand.startWorker ∉ errands) ∧
    (Errand.closeMessages ∉ errands → Errand.closePaths ∉ errands) := by
  constructor
  · intro hno hmem
    have hall : Errand.all workers =
        (.startWalker :: List.replicate workers .startWorker) ++
          [.closePaths, .closeMessages, .startAggregator] := rfl
    rw [hall] at h
    exact hno (mem_of_suffix h hmem (by decide) .closePaths (by decide))
  · intro hno hmem
    have hall : Errand.all workers =
        (.startWalker :: (List.replicate workers .startWorker ++ [.closePaths])) ++
          [.closeMessages, .startAggregator] := by
      simp [Errand.all]
    rw [hall] at h
    exact hno (mem_of_suffix h hmem (by decide) .closeMessages (by decide))

namespace Pipeline

/-! ## Rules -/

/-- The state after an errand. -/
def afterErrand (p : Pipeline) (e : Errand) (rest : List Errand) : Pipeline :=
  { p with
    errands := rest
    workers := if e = .startWorker then p.workers ++ [.waiting] else p.workers }

/-- What can happen next. -/
inductive Step (capacity : Nat) (extract : String → Except Error Table) (p : Pipeline) : Pipeline → Prop where
  /-- The thread that starts the others does its next errand. -/
  | errand {e rest} (next : p.errands = e :: rest) : Step capacity extract p (p.afterErrand e rest)
  /-- The walker has found everything. -/
  | walkerEnds (started : .startWalker ∉ p.errands) (walk : p.walk = some []) :
      Step capacity extract p { p with walk := none }
  /-- The walker hands over a path. -/
  | walkerSends {path rest} (started : .startWalker ∉ p.errands) (walk : p.walk = some (.ok path :: rest))
      (taking : p.isTaking = true) (room : p.paths.length < capacity) :
      Step capacity extract p { p with walk := some rest, paths := p.paths ++ [path] }
  /-- Nobody takes paths any more, and the walker gives up. -/
  | walkerLeaves {path rest} (started : .startWalker ∉ p.errands) (walk : p.walk = some (.ok path :: rest))
      (taking : p.isTaking = false) : Step capacity extract p { p with walk := none }
  /-- The walker tells what is wrong. -/
  | walkerTells {e rest} (started : .startWalker ∉ p.errands) (walk : p.walk = some (.error e :: rest))
      (listening : p.outcome = none) (room : p.messages.length < capacity) :
      Step capacity extract p { p with walk := none, messages := p.messages ++ [.error e] }
  /-- The walker has something to tell, but the aggregator has stopped. -/
  | walkerUnheard {e rest} (started : .startWalker ∉ p.errands) (walk : p.walk = some (.error e :: rest))
      (deaf : p.outcome.isSome = true) : Step capacity extract p { p with walk := none }
  /-- A worker takes a path. -/
  | workerTakes {i path rest} (worker : p.workers[i]? = some .waiting) (paths : p.paths = path :: rest) :
      Step capacity extract p
        { p with paths := rest, workers := p.workers.set i (.holding (.ofFile extract path)) }
  /-- No more paths come, and a worker stops. -/
  | workerEnds {i} (worker : p.workers[i]? = some .waiting) (paths : p.paths = []) (walk : p.walk = none) :
      Step capacity extract p { p with workers := p.workers.set i .stopped }
  /-- A worker tells what it has found. -/
  | workerTells {i message} (worker : p.workers[i]? = some (.holding message)) (listening : p.outcome = none)
      (room : p.messages.length < capacity) :
      Step capacity extract p
        { p with messages := p.messages ++ [message], workers := p.workers.set i .waiting }
  /-- A worker has something to tell, but the aggregator has stopped. -/
  | workerUnheard {i message} (worker : p.workers[i]? = some (.holding message))
      (deaf : p.outcome.isSome = true) :
      Step capacity extract p { p with workers := p.workers.set i .stopped }
  /-- The aggregator records a table. -/
  | records {source rest catalog} (started : .startAggregator ∉ p.errands) (listening : p.outcome = none)
      (messages : p.messages = .ok source :: rest)
      (recorded : p.catalog.record source.path source.table = .ok catalog) :
      Step capacity extract p { p with messages := rest, catalog := catalog }
  /-- The aggregator cannot record a table, and stops. -/
  | rejects {source rest e} (started : .startAggregator ∉ p.errands) (listening : p.outcome = none)
      (messages : p.messages = .ok source :: rest)
      (rejected : p.catalog.record source.path source.table = .error e) :
      Step capacity extract p { p with messages := rest, outcome := some (.error e) }
  /-- The aggregator is told that something is wrong, and stops. -/
  | fails {e rest} (started : .startAggregator ∉ p.errands) (listening : p.outcome = none)
      (messages : p.messages = .error e :: rest) :
      Step capacity extract p { p with messages := rest, outcome := some (.error e) }
  /-- No more messages come, and the aggregator is done. -/
  | completes (started : .startAggregator ∉ p.errands) (listening : p.outcome = none)
      (messages : p.messages = []) (telling : p.isTelling = false) :
      Step capacity extract p { p with outcome := some (.ok p.catalog) }

/-! ## The rules are the moves -/

theorem step_of_starterMove (h : p.starterMove? = some q) : Step capacity extract p q := by
  unfold starterMove? at h
  split at h
  · exact absurd h (by simp)
  · rename_i rest he
    cases h
    exact Step.errand (e := .startWorker) he
  · rename_i e rest hne he
    cases h
    -- all other errands only go off the list
    have : p.afterErrand e rest = { p with errands := rest } := by
      rw [afterErrand, if_neg (fun heq => hne heq)]
    exact this ▸ Step.errand he

theorem step_of_walkerMove (h : p.walkerMove? capacity = some q) : Step capacity extract p q := by
  unfold walkerMove? at h
  split at h
  · exact absurd h (by simp)
  -- everything below happens only once the walker has been started
  rename_i hs
  have started : Errand.startWalker ∉ p.errands := by simpa using hs
  split at h
  · exact absurd h (by simp)
  · rename_i hw
    cases h
    exact Step.walkerEnds started hw
  · rename_i path rest hw
    split at h
    · rename_i ht
      cases h
      exact Step.walkerLeaves started hw (by simpa using ht)
    · rename_i ht
      split at h
      · rename_i hr
        cases h
        exact Step.walkerSends started hw (by simpa using ht) hr
      · exact absurd h (by simp)
  · rename_i e rest hw
    split at h
    · rename_i hd
      cases h
      exact Step.walkerUnheard started hw hd
    · rename_i hd
      split at h
      · rename_i hr
        cases h
        exact Step.walkerTells started hw (by simpa using hd) hr
      · exact absurd h (by simp)

theorem step_of_workerMove {i : Nat} (h : p.workerMove? capacity extract i = some q) :
    Step capacity extract p q := by
  unfold workerMove? at h
  split at h
  · rename_i hw
    split at h
    · rename_i path rest hp
      cases h
      exact Step.workerTakes hw hp
    · rename_i hp
      split at h
      · rename_i hn
        cases h
        exact Step.workerEnds hw hp (by simpa using hn)
      · exact absurd h (by simp)
  · rename_i message hw
    split at h
    · rename_i hd
      cases h
      exact Step.workerUnheard hw hd
    · rename_i hd
      split at h
      · rename_i hr
        cases h
        exact Step.workerTells hw (by simpa using hd) hr
      · exact absurd h (by simp)
  · exact absurd h (by simp)
  · exact absurd h (by simp)

theorem step_of_aggregatorMove (h : p.aggregatorMove? = some q) : Step capacity extract p q := by
  unfold aggregatorMove? at h
  split at h
  · exact absurd h (by simp)
  rename_i hg
  obtain ⟨started, listening⟩ : Errand.startAggregator ∉ p.errands ∧ p.outcome = none := by
    simpa using hg
  split at h
  · rename_i source rest hm
    split at h
    · rename_i catalog hc
      cases h
      exact Step.records started listening hm hc
    · rename_i e hc
      cases h
      exact Step.rejects started listening hm hc
  · rename_i e rest hm
    cases h
    exact Step.fails started listening hm
  · rename_i hm
    split at h
    · exact absurd h (by simp)
    · rename_i ht
      cases h
      exact Step.completes started listening hm (by simpa using ht)

/-- **The rules are exactly the moves.** What can happen next is what some thread does when it is its turn. -/
theorem step_iff_move : Step capacity extract p q ↔ ∃ m, p.move? capacity extract m = some q := by
  constructor
  · intro h
    cases h with
    | @errand e rest next =>
      refine ⟨.starter, ?_⟩
      cases e <;> simp [move?, starterMove?, next, afterErrand]
    | walkerEnds started walk => exact ⟨.walker, by simp [move?, walkerMove?, started, walk]⟩
    | walkerSends started walk taking room =>
      exact ⟨.walker, by simp [move?, walkerMove?, started, walk, taking, room]⟩
    | walkerLeaves started walk taking =>
      exact ⟨.walker, by simp [move?, walkerMove?, started, walk, taking]⟩
    | walkerTells started walk listening room =>
      exact ⟨.walker, by simp [move?, walkerMove?, started, walk, listening, room]⟩
    | walkerUnheard started walk deaf =>
      exact ⟨.walker, by simp [move?, walkerMove?, started, walk, deaf]⟩
    | @workerTakes i _ _ worker paths => exact ⟨.worker i, by simp [move?, workerMove?, worker, paths]⟩
    | @workerEnds i worker paths walk => exact ⟨.worker i, by simp [move?, workerMove?, worker, paths, walk]⟩
    | @workerTells i _ worker listening room =>
      exact ⟨.worker i, by simp [move?, workerMove?, worker, listening, room]⟩
    | @workerUnheard i _ worker deaf => exact ⟨.worker i, by simp [move?, workerMove?, worker, deaf]⟩
    | records started listening messages recorded =>
      exact ⟨.aggregator, by simp [move?, aggregatorMove?, started, listening, messages, recorded]⟩
    | rejects started listening messages rejected =>
      exact ⟨.aggregator, by simp [move?, aggregatorMove?, started, listening, messages, rejected]⟩
    | fails started listening messages =>
      exact ⟨.aggregator, by simp [move?, aggregatorMove?, started, listening, messages]⟩
    | completes started listening messages telling =>
      exact ⟨.aggregator, by simp [move?, aggregatorMove?, started, listening, messages, telling]⟩
  · rintro ⟨m, h⟩
    cases m with
    | starter => exact step_of_starterMove h
    | walker => exact step_of_walkerMove h
    | worker i => exact step_of_workerMove h
    | aggregator => exact step_of_aggregatorMove h

/-! ## Runs -/

/-- The states that any number of moves lead to, whoever's turn it is. -/
inductive Reaches (capacity : Nat) (extract : String → Except Error Table) (p : Pipeline) : Pipeline → Prop where
  | here : Reaches capacity extract p p
  | move {q r m} : Reaches capacity extract p q → q.move? capacity extract m = some r →
      Reaches capacity extract p r

theorem Reaches.trans {r : Pipeline} (h : Reaches capacity extract p q) (h' : Reaches capacity extract q r) :
    Reaches capacity extract p r := by
  induction h' with
  | here => exact h
  | move _ hm ih => exact Reaches.move ih hm

/-- **Invariants.** What holds at first, and after every step from a state where it holds, holds in all states
    that are reached. -/
theorem Reaches.invariant {I : Pipeline → Prop} (h : Reaches capacity extract p q) (hp : I p)
    (hstep : ∀ {a b}, I a → Step capacity extract a b → I b) : I q := by
  induction h with
  | here => exact hp
  | move _ hm ih => exact hstep ih (step_iff_move.mpr ⟨_, hm⟩)

/-- All threads have stopped, and there is an outcome. -/
structure Finished (p : Pipeline) : Prop where
  starter : p.errands = []
  walker : p.walk = none
  workers : p.idle = true
  aggregator : p.outcome.isSome = true

end Pipeline
end TableSpec
