import Ripple.Cache.Plan
import Ripple.Number

/-!
# Carrying plans out

Tasks are run first come, first served: each goes on until it must wait or has
ended, tasks that take off are put at the end of the queue, and so are tasks
whose wait is over. Requests can also be made in batches that nobody waits for.
The gate, while it is closed, keeps calls of the backend from coming back.
-/

namespace Ripple
namespace Cache

variable {π α : Type}

inductive Job where
  | task (ticket : Nat)
  | batch (number : Nat)
  deriving DecidableEq, Repr, Inhabited

structure Schedule (π : Type) where
  machine : Machine π
  batches : Table Nat (List (Request π))
  nextBatch : Nat
  queue : List Job
  gateOpen : Bool
  deriving Inhabited

namespace Schedule

def new (settings : CacheSettings) (gateOpen : Bool) : Schedule π :=
  ⟨.new settings, ∅, 0, [], gateOpen⟩

def tables (s : Schedule π) : Tables π := s.machine.tables

def updateTables (s : Schedule π) (f : Tables π → Tables π) : Schedule π :=
  { s with machine := s.machine.updateTables f }

/-!
# The queue
-/

/-- The jobs of the tasks that have taken off between two states. -/
def takenOff (before after : Machine π) : List Job :=
  (List.range (after.tables.nextTicket - before.tables.nextTicket)).map fun i =>
    .task (before.tables.nextTicket + i)

/-- The tasks outside the queue that wait for what has just been announced. -/
def woken (s : Schedule π) (before after : Machine π) (ticket : Nat) : List Job :=
  if (before.outcome? ticket).isNone && (after.outcome? ticket).isSome then
    ((after.tasks.filter fun _ t => t.stage.waitsFor ticket).keys.map Job.task).filter
      fun job => job ∉ s.queue
  else []

/-- Replaces the machine and queues what the step has set going. -/
def after (s : Schedule π) (m : Machine π) : Schedule π :=
  { s with machine := m, queue := s.queue ++ takenOff s.machine m }

/-- One step of the first request of a list that can make one. -/
def stepFirst (environment : String) (m : Machine π) :
    List (Request π) → Option (List (Request π) × Machine π)
  | [] => none
  | r :: rest =>
      if r.isActive then
        let (r, m) := r.step environment m
        some (r :: rest, m)
      else (stepFirst environment m rest).map fun (rest, m) => (r :: rest, m)

/-- One step of a job, or nothing where it cannot make one. -/
def stepJob (b : Backend π) (s : Schedule π) : Job → Option (Schedule π)
  | .task ticket =>
      (Task.step b s.gateOpen ticket s.machine).map fun m =>
        let next := s.after m
        { next with queue := next.queue ++ s.woken s.machine m ticket }
  | .batch number => do
      let requests ← s.batches.get? number
      let (requests, m) ← stepFirst b.environment s.machine requests
      some { s.after m with batches := s.batches.insert number requests }

/-- Runs the queue; the first argument bounds the number of steps. -/
def runQueue (b : Backend π) : Nat → Schedule π → Schedule π
  | 0, s => s
  | n + 1, s =>
      match s.queue with
      | [] => s
      | job :: rest =>
          match s.stepJob b job with
          | some s => runQueue b n s
          | none => runQueue b n { s with queue := rest }

/-- A bound on the steps that are left to the jobs at work. -/
def effort (s : Schedule π) : Nat :=
  let tasks := s.machine.tasks.values.map fun t =>
    if t.stage.isEnded then 0 else t.context.effort t.project
  let requests := s.batches.values.flatten.map fun r =>
    if r.isActive then r.context.effort r.project + 8 else 0
  Number.total tasks + Number.total requests + s.queue.length

/-- Lets everything run that can run. -/
def settle (b : Backend π) (s : Schedule π) : Schedule π :=
  runQueue b s.effort s

/-!
# Batches and the gate
-/

/-- Starts requests that run on their own. -/
def startBatch (s : Schedule π) (requests : List (Request π)) : Nat × Schedule π :=
  (s.nextBatch,
    { s with
      batches := s.batches.insert s.nextBatch requests
      nextBatch := s.nextBatch + 1
      queue := s.queue ++ [.batch s.nextBatch] })

def abortBatch (s : Schedule π) (number : Nat) : Schedule π :=
  { s with batches := s.batches.erase number }

def results? (s : Schedule π) (number : Nat) : Option (List (Except Error (Resolved π))) := do
  let requests ← s.batches.get? number
  requests.mapM fun r => r.result? s.machine

/-- Some request of the batch has no result yet. -/
def isRunning (s : Schedule π) (number : Nat) : Bool :=
  s.batches.contains number && (s.results? number).isNone

def openGate (s : Schedule π) : Schedule π :=
  { s with
    gateOpen := true
    queue := s.queue ++
      (s.machine.tasks.filter fun _ t => t.stage.isCompiling).keys.map Job.task }

/-!
# Callers
-/

/-- How a caller comes out of its plan. -/
inductive Exit (α : Type) where
  | returned (a : α)
  | panicked
  /-- It waits for a call that does not come back. -/
  | blocked
  deriving Inhabited

/-- A caller that waits, or has come out of its plan. -/
inductive Caller (π α : Type) where
  | waiting (r : Request π) (next : Except Error (Resolved π) → Plan π α)
  | compiling (u : CompileUnit π) (next : Except String (Held (Artifact π)) → Plan π α)
  | returned (a : α)
  | panicked

def fileListing (s : Schedule π) (key : ListingKey) (f : Fingerprint) (ds : List Diagnostic) :
    Held (List Diagnostic) × Schedule π :=
  let (held, tables) := s.tables.stamp ds
  (held,
    s.updateTables fun _ => { tables with listings := tables.listings.insert key ⟨f, held⟩ })

def request (b : Backend π) (s : Schedule π) (ctx : Context) (id : ProjectId) :
    Request π × Schedule π :=
  let (r, m) := (Request.of ctx id).advance b.environment s.machine
  (r, s.after m)

/-- The answer of the backend to a caller; nothing if it panics. -/
def answer (b : Backend π) (s : Schedule π) (u : CompileUnit π) :
    Option (Except String (Held (Artifact π)) × Schedule π) :=
  match b.compile u with
  | .compiled a =>
      let (held, tables) := s.tables.stamp a
      some (.ok held, s.updateTables fun _ => tables)
  | .failed cause => some (.error cause, s)
  | .panicked => none

def recordCall (s : Schedule π) (u : CompileUnit π) : Schedule π :=
  { s with machine := s.machine.recordCall u }

/-- Follows a plan up to where it has to wait. -/
def poll (b : Backend π) : Plan π α → Schedule π → Caller π α × Schedule π
  | .done a, s => (.returned a, s)
  | .request ctx id next, s =>
      let (r, s) := s.request b ctx id
      match r.result? s.machine with
      | some result => poll b (next result) s
      | none => (.waiting r next, s)
  | .compile u next, s =>
      let s := s.recordCall u
      if s.gateOpen then
        match s.answer b u with
        | some (result, s) => poll b (next result) s
        | none => (.panicked, s)
      else (.compiling u next, s)
  | .consult key next, s => poll b (next (s.tables.listings.get? key)) s
  | .file key f ds next, s =>
      let (held, s) := s.fileListing key f ds
      poll b (next held) s

/-- Follows a plan to its end, with the tasks running where it has to wait. -/
def drive (b : Backend π) : Plan π α → Schedule π → Exit α × Schedule π
  | .done a, s => (.returned a, s)
  | .request ctx id next, s =>
      let (r, s) := s.request b ctx id
      match r.result? s.machine with
      | some result => drive b (next result) s
      | none =>
          let s := s.settle b
          match r.result? s.machine with
          | some result => drive b (next result) s
          | none => (.blocked, s)
  | .compile u next, s =>
      let s := s.recordCall u
      if s.gateOpen then
        match s.answer b u with
        | some (result, s) => drive b (next result) s
        | none => (.panicked, s)
      else (.blocked, s)
  | .consult key next, s => drive b (next (s.tables.listings.get? key)) s
  | .file key f ds next, s =>
      let (held, s) := s.fileListing key f ds
      drive b (next held) s

namespace Caller

def isOut : Caller π α → Bool
  | .returned _ | .panicked => true
  | _ => false

/-- Goes on as far as possible without the tasks. -/
def resume (b : Backend π) (c : Caller π α) (s : Schedule π) : Caller π α × Schedule π :=
  match c with
  | .waiting r next =>
      match r.result? s.machine with
      | some result => poll b (next result) s
      | none => (c, s)
  | .compiling u next =>
      if s.gateOpen then
        match s.answer b u with
        | some (result, s) => poll b (next result) s
        | none => (.panicked, s)
      else (c, s)
  | _ => (c, s)

/-- Goes on to the end of the plan. -/
def finish (b : Backend π) (c : Caller π α) (s : Schedule π) : Exit α × Schedule π :=
  match c with
  | .waiting r next =>
      let s := s.settle b
      match r.result? s.machine with
      | some result => drive b (next result) s
      | none => (.blocked, s)
  | .compiling u next =>
      if s.gateOpen then
        match s.answer b u with
        | some (result, s) => drive b (next result) s
        | none => (.panicked, s)
      else (.blocked, s)
  | .returned a => (.returned a, s)
  | .panicked => (.panicked, s)

end Caller

/-!
# Several callers at once
-/

/-- Does something for each item in order, handing the schedule on. -/
def each (f : γ → Schedule π → δ × Schedule π) : List γ → Schedule π → List δ × Schedule π
  | [], s => ([], s)
  | x :: xs, s =>
      let (y, s) := f x s
      let (ys, s) := each f xs s
      (y :: ys, s)

/-- Lets the callers go on in turns, with the tasks running in between. -/
def takeTurns (b : Backend π) : Nat → List (Caller π α) → Schedule π →
    List (Caller π α) × Schedule π
  | 0, callers, s => (callers, s)
  | n + 1, callers, s =>
      if callers.all Caller.isOut then (callers, s)
      else
        let (callers, s) := each (Caller.resume b) callers (s.settle b)
        takeTurns b n callers s

/-- Carries plans out side by side for some turns, and then one after the other. -/
def driveAll (b : Backend π) (turns : Nat) (plans : List (Plan π α)) (s : Schedule π) :
    List (Exit α) × Schedule π :=
  let (callers, s) := each (poll b) plans s
  let (callers, s) := takeTurns b turns callers s
  each (Caller.finish b) callers s

end Schedule
end Cache
end Ripple
