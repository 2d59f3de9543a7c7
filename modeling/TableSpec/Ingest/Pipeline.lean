import TableSpec.Catalog

/-!
# `TableSpec.Ingest.Pipeline` — walker, workers and aggregator

A directory is taken in by several threads. A walker finds files and puts their paths into a queue; workers
take paths, extract the tables and put what they find into a second queue; an aggregator records it in a
catalog. Both queues are bounded. The first error ends everything: when the aggregator has stopped, its
queue takes nothing any more, so that the workers stop, and then the walker.

A queue is closed to one side when nobody holds an end of the other side any more. The thread that starts
the others holds ends of both queues at first. It lets go of them on the way, because the aggregator would
wait for more messages otherwise, and the walker for somebody to take its paths.

The threads are modelled by one state and the moves that they can make in it. A move that a thread cannot
make now is none; which of the possible ones is made is not said.

## Contents
- `Pipeline`, `Move`, `Pipeline.move?`.
- `Pipeline.isTaking`, `Pipeline.isTelling`: whether somebody is left at the other side of a queue.
- `Pipeline.remaining`: the moves that are left at most.
- `Pipeline.run`: make moves as long as there are any.
-/

namespace TableSpec

/-- A table and the file it comes from. -/
structure LocatedTable where
  path : String
  table : Table
  deriving DecidableEq, Inhabited

/-- What a worker tells the aggregator: the table of a file, or what is wrong. -/
abbrev Message := Except Error LocatedTable

/-- What there is to tell about a file, when `extract` says what is in it. -/
def Message.ofFile (extract : String → Except Error Table) (path : String) : Message :=
  (extract path).map (LocatedTable.mk path)

/-- What a worker is doing. -/
inductive Worker where
  | waiting
  /-- It has something to tell. -/
  | holding (message : Message)
  | stopped
  deriving Inhabited

/-- What the thread that starts the others has to do. -/
inductive Errand where
  | startWalker
  | startWorker
  /-- Let go of the end of the queue of paths that workers take from. -/
  | closePaths
  /-- Let go of the end of the queue of messages that workers put into. -/
  | closeMessages
  | startAggregator
  deriving DecidableEq, Repr

/-- The state of the threads that take in a directory. -/
structure Pipeline where
  /-- What the thread that starts the others has still to do, in order. -/
  errands : List Errand
  /-- What the walker has still to find; none when the walker has stopped. -/
  walk : Option (List (Except Error String))
  /-- Paths on their way to the workers, first in first out. -/
  paths : List String
  /-- The workers that have been started. -/
  workers : List Worker
  /-- Messages on their way to the aggregator, first in first out. -/
  messages : List Message
  /-- The catalog so far. -/
  catalog : Catalog
  /-- The outcome, when the aggregator has stopped. -/
  outcome : Option (Except Error Catalog)
  deriving Inhabited

/-- A thread whose turn it is. -/
inductive Move where
  | starter
  | walker
  | worker (position : Nat)
  | aggregator
  deriving DecidableEq, Repr

/-- All that the thread that starts the others has to do. -/
def Errand.all (workers : Nat) : List Errand :=
  .startWalker :: (List.replicate workers .startWorker ++ [.closePaths, .closeMessages, .startAggregator])

namespace Worker

/-- Whether a worker has stopped. -/
def isStopped : Worker → Bool
  | stopped => true
  | waiting | holding _ => false

/-- How many moves a worker has left at most. -/
def remaining : Worker → Nat
  | waiting => 1
  | holding _ => 3
  | stopped => 0

/-- How many moves some workers have left at most, together. -/
def remainingAll (workers : List Worker) : Nat := workers.foldr (fun w n => w.remaining + n) 0

end Worker

namespace Pipeline

/-- The state at the start. At least one worker will be started. -/
def start (found : List (Except Error String)) (workers : Nat) : Pipeline where
  errands := Errand.all (max workers 1)
  walk := some found
  paths := []
  workers := []
  messages := []
  catalog := .empty
  outcome := none

/-- Whether all workers that have been started have stopped. -/
def idle (p : Pipeline) : Bool := p.workers.all Worker.isStopped

/-- Whether somebody holds an end of the queue of paths to take from. -/
def isTaking (p : Pipeline) : Bool := p.errands.contains .closePaths || !p.idle

/-- Whether somebody holds an end of the queue of messages to put into; the walker has one of its own. -/
def isTelling (p : Pipeline) : Bool := p.errands.contains .closeMessages || p.walk.isSome || !p.idle

/-- The thread that starts the others goes on. -/
def starterMove? (p : Pipeline) : Option Pipeline :=
  match p.errands with
  | [] => none
  | .startWorker :: rest => some { p with errands := rest, workers := p.workers ++ [.waiting] }
  | _ :: rest => some { p with errands := rest }

/-- The walker hands over what it finds: a path to the workers, an error to the aggregator. It waits while
    the queue is full, and stops when nobody takes from the queue any more. -/
def walkerMove? (capacity : Nat) (p : Pipeline) : Option Pipeline :=
  if p.errands.contains .startWalker then none
  else match p.walk with
    | none => none
    | some [] => some { p with walk := none }
    | some (.ok path :: rest) =>
      if !p.isTaking then some { p with walk := none }
      else if p.paths.length < capacity then some { p with walk := some rest, paths := p.paths ++ [path] }
      else none
    | some (.error e :: _) =>
      if p.outcome.isSome then some { p with walk := none }
      else if p.messages.length < capacity then
        some { p with walk := none, messages := p.messages ++ [.error e] }
      else none

/-- A worker takes a path, or tells what it has found. It stops when no more paths come, or when the
    aggregator has stopped. -/
def workerMove? (capacity : Nat) (extract : String → Except Error Table) (p : Pipeline) (position : Nat) :
    Option Pipeline :=
  match p.workers[position]? with
  | some .waiting =>
    match p.paths with
    | path :: rest =>
      some { p with paths := rest, workers := p.workers.set position (.holding (.ofFile extract path)) }
    | [] => if p.walk.isNone then some { p with workers := p.workers.set position .stopped } else none
  | some (.holding message) =>
    if p.outcome.isSome then some { p with workers := p.workers.set position .stopped }
    else if p.messages.length < capacity then
      some { p with messages := p.messages ++ [message], workers := p.workers.set position .waiting }
    else none
  | some .stopped | none => none

/-- The aggregator records the next table, or stops: at an error, or when no more messages come. -/
def aggregatorMove? (p : Pipeline) : Option Pipeline :=
  if p.errands.contains .startAggregator || p.outcome.isSome then none
  else match p.messages with
    | .ok source :: rest =>
      match p.catalog.record source.path source.table with
      | .ok catalog => some { p with messages := rest, catalog := catalog }
      | .error e => some { p with messages := rest, outcome := some (.error e) }
    | .error e :: rest => some { p with messages := rest, outcome := some (.error e) }
    | [] => if p.isTelling then none else some { p with outcome := some (.ok p.catalog) }

/-- The state after a thread's turn, if the thread can do anything. Queues hold `capacity` entries, and
    `extract` says what is in a file. -/
def move? (capacity : Nat) (extract : String → Except Error Table) (p : Pipeline) : Move → Option Pipeline
  | .starter => p.starterMove?
  | .walker => p.walkerMove? capacity
  | .worker position => p.workerMove? capacity extract position
  | .aggregator => p.aggregatorMove?

/-- How many moves are left at most: two for an errand, four for what has still to be found, three for a path
    on its way, and so on. -/
def remaining (p : Pipeline) : Nat :=
  2 * p.errands.length + (p.walk.map (fun found => 4 * found.length + 1)).getD 0 + 3 * p.paths.length +
    Worker.remainingAll p.workers + p.messages.length + (if p.outcome.isSome then 0 else 1)

/-- The turns that are tried in order. -/
def turns (p : Pipeline) : List Move :=
  .starter :: .aggregator :: (List.range p.workers.length).map .worker ++ [.walker]

/-- Make moves until there are none, or `fuel` of them have been made. -/
def runFor (capacity : Nat) (extract : String → Except Error Table) : Nat → Pipeline → Pipeline
  | 0, p => p
  | fuel + 1, p =>
    match p.turns.findSome? (p.move? capacity extract) with
    | some next => runFor capacity extract fuel next
    | none => p

/-- Make moves until there are none. -/
def run (capacity : Nat) (extract : String → Except Error Table) (p : Pipeline) : Pipeline :=
  runFor capacity extract p.remaining p

end Pipeline
end TableSpec
