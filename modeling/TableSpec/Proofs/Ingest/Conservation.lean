import TableSpec.Proofs.Catalog.Recording
import TableSpec.Proofs.Ingest.Step

/-!
# `Proofs.Ingest.Conservation` — nothing is lost on the way

Everything that the walker finds is something to tell the aggregator: the table of a file, what is wrong with
the file, or what stopped the walk. As long as the aggregator goes on, all of it is somewhere: recorded, in
one of the two queues, in the hands of a worker, or still to be found. This is `Accounted`; that it is kept
by every step needs to know that nobody gives up before the aggregator does (`Orderly`).

## Contents
- `Orderly`, `orderly_step`, `Orderly.drained_of_not_isTaking`: in which order threads stop.
- `tidings`, `pending`, `Accounted`, `accounted_step`: what there is to tell, and where it is.
- `Reaches.accounted`: what a run that started from nothing has done with it.
-/

namespace TableSpec
namespace Pipeline

variable {capacity workers : Nat} {extract : String → Except Error Table} {p q : Pipeline}
  {found : List (Except Error String)}

/-! ## The order in which threads stop -/

/-- Errands are done in order, each worker is started by one of them, and while the aggregator listens no
    worker stops before everything has been found and taken. -/
structure Orderly (workers : Nat) (p : Pipeline) : Prop where
  errands : p.errands <:+ Errand.all workers
  started : p.workers.length + p.errands.count .startWorker = workers
  drained : p.outcome = none → .stopped ∈ p.workers → p.walk = none ∧ p.paths = []

theorem orderly_start (found : List (Except Error String)) (workers : Nat) :
    (start found workers).Orderly (max workers 1) where
  errands := List.suffix_refl _
  started := by simp [start, Errand.all]
  drained _ h := absurd h (by simp [start])

/-- A worker that is found among workers one of which has been replaced was there, or is the new one. -/
theorem stopped_mem_set {ws : List Worker} {i : Nat} {w : Worker} (hw : w ≠ .stopped)
    (h : Worker.stopped ∈ ws.set i w) : Worker.stopped ∈ ws := by
  rcases List.mem_or_eq_of_mem_set h with h | h
  · exact h
  · exact absurd h.symm hw

theorem orderly_step (hp : p.Orderly workers) (h : Step capacity extract p q) : q.Orderly workers := by
  cases h with
  | @errand e rest next =>
    -- the errand that is done is a worker's start or is not: only then do both sides of `started` move
    have hcount : p.errands.count .startWorker =
        rest.count .startWorker + if e = .startWorker then 1 else 0 := by
      rw [next, List.count_cons]
      simp
    refine ⟨(List.suffix_cons e rest).trans (next ▸ hp.errands), ?_, ?_⟩
    · have := hp.started
      unfold afterErrand
      by_cases he : e = .startWorker
      · simp only [he, if_true, List.length_append, List.length_singleton] at hcount ⊢
        omega
      · simp only [he, if_false] at hcount ⊢
        omega
    · intro listening hstopped
      refine hp.drained listening ?_
      unfold afterErrand at hstopped
      by_cases he : e = .startWorker
      · simpa [he] using hstopped
      · simpa [he] using hstopped
  | walkerEnds _ walk =>
    exact ⟨hp.errands, hp.started, fun listening hs => ⟨rfl, (hp.drained listening hs).2⟩⟩
  -- there is still something to find, so no worker has stopped while the aggregator listens
  | walkerSends _ walk =>
    refine ⟨hp.errands, hp.started, fun listening hs => ?_⟩
    have := (hp.drained listening hs).1
    rw [walk] at this
    exact absurd this (by simp)
  | walkerLeaves _ walk =>
    exact ⟨hp.errands, hp.started, fun listening hs => ⟨rfl, (hp.drained listening hs).2⟩⟩
  | walkerTells _ walk =>
    exact ⟨hp.errands, hp.started, fun listening hs => ⟨rfl, (hp.drained listening hs).2⟩⟩
  | walkerUnheard _ walk =>
    exact ⟨hp.errands, hp.started, fun listening hs => ⟨rfl, (hp.drained listening hs).2⟩⟩
  -- as for the walker: there is a path to take
  | workerTakes worker paths =>
    refine ⟨hp.errands, by rw [← hp.started, List.length_set], fun listening hs => ?_⟩
    have := (hp.drained listening (stopped_mem_set (by simp) hs)).2
    rw [paths] at this
    exact absurd this (by simp)
  | workerEnds worker paths walk =>
    exact ⟨hp.errands, by rw [← hp.started, List.length_set], fun _ _ => ⟨walk, paths⟩⟩
  | workerTells worker =>
    exact ⟨hp.errands, by rw [← hp.started, List.length_set],
      fun listening hs => hp.drained listening (stopped_mem_set (by simp) hs)⟩
  -- the one step that stops a worker early, and it needs an aggregator that has stopped
  | workerUnheard worker deaf =>
    refine ⟨hp.errands, by rw [← hp.started, List.length_set], fun listening _ => ?_⟩
    have hnone : p.outcome = none := listening
    rw [hnone] at deaf
    exact absurd deaf (by simp)
  | records => exact ⟨hp.errands, hp.started, fun _ hs => hp.drained ‹_› hs⟩
  | rejects | fails | completes =>
    exact ⟨hp.errands, hp.started, fun listening _ => absurd listening (by simp)⟩

/-- While the aggregator listens, nobody takes paths any more only when there are none: a worker has stopped
    then, because there is at least one. -/
theorem Orderly.drained_of_not_isTaking (hp : p.Orderly workers) (hone : 0 < workers)
    (listening : p.outcome = none) (taking : p.isTaking = false) : p.walk = none ∧ p.paths = [] := by
  obtain ⟨hclosed, hidle⟩ : Errand.closePaths ∉ p.errands ∧ p.idle = true := by
    simpa [isTaking] using taking
  -- the starter drops its end of the queue after it has started the workers
  have hnone : p.errands.count .startWorker = 0 :=
    List.count_eq_zero.mpr ((Errand.ordered hp.errands).1 hclosed)
  have hlen : 0 < p.workers.length := by
    have := hp.started
    omega
  obtain ⟨w, hw⟩ := List.exists_mem_of_length_pos hlen
  have hstopped : w.isStopped = true := List.all_eq_true.mp hidle w hw
  cases w with
  | stopped => exact hp.drained listening hw
  | waiting | holding _ => exact absurd hstopped (by simp [Worker.isStopped])

/-! ## What there is to tell -/

/-- What a worker has in its hands. -/
def Worker.held : Worker → List Message
  | .holding message => [message]
  | .waiting | .stopped => []

/-- What there is to tell about what is found. An error is the last thing that is. -/
def tidings (extract : String → Except Error Table) : List (Except Error String) → List Message
  | [] => []
  | .ok path :: rest => .ofFile extract path :: tidings extract rest
  | .error e :: _ => [.error e]

/-- What is on its way to the aggregator. -/
def pending (extract : String → Except Error Table) (p : Pipeline) : List Message :=
  p.messages ++ (p.workers.flatMap Worker.held ++
    (p.paths.map (Message.ofFile extract) ++ (p.walk.map (tidings extract)).getD []))

/-- What has become of what there is to tell. While the aggregator listens, it has recorded a part and the
    rest is on its way. A catalog as the outcome has all of it recorded. An error as the outcome was told, or
    a table was, of a directory that is not known. -/
def Accounted (extract : String → Except Error Table) (found : List (Except Error String)) (p : Pipeline) :
    Prop :=
  match p.outcome with
  | none => ∃ told, Catalog.empty.recordAll told = .ok p.catalog ∧
      (told.map Except.ok ++ p.pending extract).Perm (tidings extract found)
  | some (.ok c) => ∃ told, Catalog.empty.recordAll told = .ok c ∧
      (told.map Except.ok).Perm (tidings extract found)
  | some (.error e) => .error e ∈ tidings extract found ∨
      ∃ s cause, .ok s ∈ tidings extract found ∧ Namespace.ofDirectory (Catalog.keyOf s.path) = .error cause ∧
        cause.isInFile = false ∧ e = .inFile s.path cause

theorem accounted_start (found : List (Except Error String)) (workers : Nat) :
    (start found workers).Accounted extract found :=
  ⟨[], rfl, List.Perm.refl _⟩

/-- Replacing one element of a list exchanges what the two elements give. -/
theorem perm_flatMap_set {α β : Type} (f : α → List β) {as : List α} {i : Nat} {a : α} (b : α)
    (h : as[i]? = some a) : ((as.set i b).flatMap f ++ f a).Perm (as.flatMap f ++ f b) := by
  induction as generalizing i with
  | nil => simp at h
  | cons c rest ih =>
    cases i with
    | zero =>
      have hc : c = a := by simpa using h
      subst hc
      simp only [List.set_cons_zero, List.flatMap_cons, List.append_assoc]
      rw [← List.append_assoc]
      exact List.perm_append_comm.trans (List.Perm.append_left _ List.perm_append_comm)
    | succ i =>
      have hrest := ih (i := i) (by simpa using h)
      simp only [List.set_cons_succ, List.flatMap_cons, List.append_assoc]
      exact List.Perm.append_left _ hrest

/-! ## What each step does to it -/

theorem pending_afterErrand (e : Errand) (rest : List Errand) :
    (p.afterErrand e rest).pending extract = p.pending extract := by
  unfold pending afterErrand
  by_cases he : e = .startWorker
  · simp [he, Worker.held]
  · simp [he]

/-- The walker's path is as much on its way in the queue as it was before. -/
theorem pending_walkerSends {path : String} {rest : List (Except Error String)}
    (walk : p.walk = some (.ok path :: rest)) :
    pending extract { p with walk := some rest, paths := p.paths ++ [path] } = p.pending extract := by
  simp [pending, walk, tidings]

theorem pending_walkerTells {e : Error} {rest : List (Except Error String)}
    (walk : p.walk = some (.error e :: rest)) :
    (pending extract { p with walk := none, messages := p.messages ++ [.error e] }).Perm
      (p.pending extract) := by
  simp only [pending, walk, Option.map_some, Option.map_none, Option.getD_some, Option.getD_none, tidings,
    List.append_nil, List.append_assoc]
  refine List.Perm.append_left _ ?_
  rw [← List.append_assoc (p.workers.flatMap Worker.held)]
  exact List.perm_append_comm

/-- A message that a worker has found stands for the path that it took. -/
theorem pending_workerTakes {i : Nat} {path : String} {rest : List String}
    (worker : p.workers[i]? = some .waiting) (paths : p.paths = path :: rest) :
    (pending extract
      { p with paths := rest, workers := p.workers.set i (.holding (.ofFile extract path)) }).Perm
      (p.pending extract) := by
  have hset := perm_flatMap_set Worker.held (.holding (.ofFile extract path)) worker
  simp only [Worker.held, List.append_nil] at hset
  simp only [pending, paths, List.map_cons, List.cons_append]
  refine List.Perm.append_left _ ((hset.append_right _).trans ?_)
  simp

/-- A worker that stops or waits again without having told anything had nothing to tell. -/
theorem pending_workerEnds {i : Nat} (worker : p.workers[i]? = some .waiting) :
    (pending extract { p with workers := p.workers.set i .stopped }).Perm (p.pending extract) := by
  have hset := perm_flatMap_set Worker.held .stopped worker
  simp only [Worker.held, List.append_nil] at hset
  exact List.Perm.append_left _ (hset.append_right _)

theorem pending_workerTells {i : Nat} {message : Message}
    (worker : p.workers[i]? = some (.holding message)) :
    (pending extract
      { p with messages := p.messages ++ [message], workers := p.workers.set i .waiting }).Perm
      (p.pending extract) := by
  have hset := perm_flatMap_set Worker.held .waiting worker
  simp only [Worker.held, List.append_nil] at hset
  simp only [pending, List.append_assoc]
  refine List.Perm.append_left _ ?_
  rw [← List.append_assoc [message]]
  exact (List.perm_append_comm.trans hset).append_right _

/-- **Nothing is lost.** Every step keeps account of all that there is to tell. -/
theorem accounted_step (hp : p.Accounted extract found) (ho : p.Orderly workers) (hone : 0 < workers)
    (h : Step capacity extract p q) : q.Accounted extract found := by
  -- a step that the aggregator does not make leaves its catalog and the outcome alone
  have frame : ∀ {q : Pipeline}, q.catalog = p.catalog → q.outcome = p.outcome →
      (p.outcome = none → (q.pending extract).Perm (p.pending extract)) → q.Accounted extract found := by
    intro q hcatalog houtcome hpending
    unfold Accounted at hp ⊢
    rw [houtcome]
    split
    · rename_i listening
      rw [listening] at hp
      obtain ⟨told, hrecorded, hperm⟩ := hp
      exact ⟨told, hcatalog ▸ hrecorded, ((hpending listening).append_left _).trans hperm⟩
    · rename_i c hc
      rw [hc] at hp
      exact hp
    · rename_i e he
      rw [he] at hp
      exact hp
  cases h with
  | errand next =>
    exact frame rfl rfl (fun _ => List.Perm.of_eq (pending_afterErrand _ _))
  | walkerEnds _ walk => exact frame rfl rfl (fun _ => by simp [pending, walk, tidings])
  | walkerSends _ walk => exact frame rfl rfl (fun _ => List.Perm.of_eq (pending_walkerSends walk))
  -- a walker with a path in hand cannot be left without a taker while the aggregator listens
  | walkerLeaves _ walk taking =>
    refine frame rfl rfl (fun listening => ?_)
    have := (ho.drained_of_not_isTaking hone listening taking).1
    rw [walk] at this
    exact absurd this (by simp)
  | walkerTells _ walk => exact frame rfl rfl (fun _ => pending_walkerTells walk)
  | walkerUnheard _ walk deaf =>
    exact frame rfl rfl (fun listening => absurd deaf (by simp [listening]))
  | workerTakes worker paths => exact frame rfl rfl (fun _ => pending_workerTakes worker paths)
  | workerEnds worker => exact frame rfl rfl (fun _ => pending_workerEnds worker)
  | workerTells worker => exact frame rfl rfl (fun _ => pending_workerTells worker)
  | workerUnheard worker deaf =>
    exact frame rfl rfl (fun listening => absurd deaf (by simp [listening]))
  -- the head of the queue moves from what is on its way to what is told
  | @records source rest catalog _ listening messages recorded =>
    simp only [Accounted, listening] at hp ⊢
    obtain ⟨told, hrecorded, hperm⟩ := hp
    refine ⟨told ++ [source], Catalog.recordAll_concat hrecorded recorded, ?_⟩
    simpa [pending, messages] using hperm
  -- the only refusal is of the directory, whatever has been recorded before
  | @rejects source rest e _ listening messages rejected =>
    simp only [Accounted, listening] at hp ⊢
    obtain ⟨told, -, hperm⟩ := hp
    obtain ⟨-, cause, hdirectory, hbare, rfl⟩ := Catalog.record_eq_error rejected
    exact Or.inr ⟨source, cause, hperm.subset (by simp [pending, messages]), hdirectory, hbare, rfl⟩
  | @fails e rest _ listening messages =>
    simp only [Accounted, listening] at hp ⊢
    obtain ⟨told, -, hperm⟩ := hp
    exact Or.inl (hperm.subset (by simp [pending, messages]))
  | completes _ listening messages telling =>
    simp only [Accounted, listening] at hp ⊢
    obtain ⟨told, hrecorded, hperm⟩ := hp
    refine ⟨told, hrecorded, ?_⟩
    -- nobody is left who could have anything in hand, and there are no paths without a taker
    obtain ⟨⟨hclosed, hwalk⟩, hidle⟩ :
        (Errand.closeMessages ∉ p.errands ∧ p.walk = none) ∧ p.idle = true := by
      simpa [isTelling] using telling
    have taking : p.isTaking = false := by
      simp [isTaking, hidle, (Errand.ordered ho.errands).2 hclosed]
    have hpaths := (ho.drained_of_not_isTaking hone listening taking).2
    have hheld : p.workers.flatMap Worker.held = [] := by
      refine List.flatMap_eq_nil_iff.mpr fun w hw => ?_
      have hstopped : w.isStopped = true := List.all_eq_true.mp hidle w hw
      cases w with
      | stopped => rfl
      | waiting | holding _ => exact absurd hstopped (by simp [Worker.isStopped])
    simpa [pending, messages, hwalk, hpaths, hheld] using hperm

/-- What a run from the start has done with all that is found. -/
theorem Reaches.accounted (h : Reaches capacity extract (start found workers) p) :
    p.Accounted extract found :=
  (h.invariant (I := fun p => p.Orderly (max workers 1) ∧ p.Accounted extract found)
    ⟨orderly_start found workers, accounted_start found workers⟩
    (fun hp hstep => ⟨orderly_step hp.1 hstep, accounted_step hp.2 hp.1 (by omega) hstep⟩)).2

end Pipeline
end TableSpec
