import Ripple.Engine.Edits
import Ripple.Engine.Lifecycle
import Ripple.Engine.Queries

/-!
# Compiles that take time

Where calls of the backend take a while, the plans of an operation go on as far as they
can before one comes back. The clock of the timers then moves on to the next one that
does, and the sweeps that fall due on the way are carried out. So a session may come to
its end while an operation on it is under way.
-/

namespace Ripple
namespace Engine

open Cache

variable {σ π α : Type}

/-- Lets the timers go on up to a time; the first argument bounds the sweeps on the way. -/
def passUntil (time : Nat) : Nat → Engine σ π → Engine σ π
  | 0, e => { e with timers := time }
  | n + 1, e =>
      match e.maintenance with
      | none => { e with timers := time }
      | some m =>
          let due := max e.timers (min m.cacheSweep m.idleSweep)
          if due ≤ time then passUntil time n { e with timers := due }.runDueSweeps
          else { e with timers := time }

/-- What is under way: the callers, each with the time at which a call of its own comes
back, and these times for the tasks that compile. -/
structure Watch (σ π α : Type) where
  engine : Engine σ π
  callers : List (Schedule.Caller π α × Nat)
  landings : List (Nat × Nat)

namespace Watch

def updateSchedule (w : Watch σ π α) (f : Schedule π → Schedule π) : Watch σ π α :=
  { w with engine := { w.engine with schedule := f w.engine.schedule } }

/-- Does something with each caller in order. -/
def eachCaller (w : Watch σ π α)
    (f : Schedule.Caller π α × Nat → Schedule π →
      (Schedule.Caller π α × Nat) × Schedule π) : Watch σ π α :=
  let (callers, schedule) := Schedule.each f w.callers w.engine.schedule
  { w with engine := { w.engine with schedule := schedule }, callers := callers }

/-- The caller waits for a result that is there. -/
def isAnswered (s : Schedule π) : Schedule.Caller π α → Bool
  | .waiting r _ => (r.result? s.machine).isSome
  | _ => false

def isCompiling : Schedule.Caller π α → Bool
  | .compiling _ _ => true
  | _ => false

/-- Lets the tasks go on up to their calls, and notes when these come back. -/
def settle (b : Backend π) (delay : Nat) (w : Watch σ π α) : Watch σ π α :=
  let w := w.updateSchedule fun s => s.settle b
  let compiling :=
    (w.engine.schedule.machine.tasks.filter fun _ t => t.stage.isCompiling).keys
  let known := w.landings.filter fun row => row.1 ∈ compiling
  let new := compiling.filter fun ticket => ticket ∉ known.map Prod.fst
  { w with landings := known ++ new.map fun ticket => (ticket, w.engine.timers + delay) }

/-- Lets the callers go on whose results are there. -/
def resume (b : Backend π) (delay : Nat) (w : Watch σ π α) : Watch σ π α :=
  w.eachCaller fun row s =>
    if isAnswered s row.1 then
      let (c, s) := row.1.resume b s
      ((c, w.engine.timers + delay), s)
    else (row, s)

/-- The call of a task comes back. -/
def landTask (b : Backend π) (ticket : Nat) (s : Schedule π) : Schedule π :=
  match { s with gateOpen := true }.stepJob b (.task ticket) with
  | some s => { s with gateOpen := false, queue := s.queue ++ [.task ticket] }
  | none => s

/-- The call of a caller comes back. -/
def landCaller (b : Backend π) (c : Schedule.Caller π α) (s : Schedule π) :
    Schedule.Caller π α × Schedule π :=
  match c with
  | .compiling u next =>
      match s.answer b u with
      | some (result, s) => Schedule.poll b (next result) s
      | none => (.panicked, s)
  | c => (c, s)

/-- Lets all calls come back that are due by now. -/
def land (b : Backend π) (delay : Nat) (w : Watch σ π α) : Watch σ π α :=
  let now := w.engine.timers
  let w := w.updateSchedule fun s =>
    (w.landings.filter fun row => row.2 ≤ now).foldl (fun s row => landTask b row.1 s) s
  w.eachCaller fun row s =>
    if isCompiling row.1 && row.2 ≤ now then
      let (c, s) := landCaller b row.1 s
      ((c, now + delay), s)
    else (row, s)

/-- When the next call comes back. -/
def nextCall? (w : Watch σ π α) : Option Nat :=
  ((w.callers.filter fun row => isCompiling row.1).map Prod.snd ++
    w.landings.map Prod.snd).min?

/-- Goes on until all callers are out or nothing comes back any more. -/
def finish (b : Backend π) (delay : Nat) : Nat → Watch σ π α → Watch σ π α
  | 0, w => w
  | n + 1, w =>
      let w := w.settle b delay
      if w.callers.any fun row => isAnswered w.engine.schedule row.1 then
        (w.resume b delay).finish b delay n
      else if w.callers.all fun row => row.1.isOut then w
      else
        match w.nextCall? with
        | none => w
        | some time =>
            let span := time + 1 - w.engine.timers
            { w with engine := w.engine.passUntil time span }.land b delay |>.finish b delay n

end Watch

/-- Enough rounds for one plan for each project, with its requests and its compiles. -/
def rounds (g : Graph) : Nat :=
  (g.projectCount + 1) * (3 * turns g)

/-- Carries plans out side by side while compiles take time. -/
def performTimed (b : Backend π) (delay rounds : Nat) (ps : List (Plan π α)) :
    Operation σ π (List α) := do
  let e ← get
  let (callers, schedule) :=
    Schedule.each (Schedule.poll b) ps { e.schedule with gateOpen := false }
  let start : Watch σ π α :=
    ⟨{ e with schedule := schedule }, callers.map fun c => (c, e.timers + delay), []⟩
  let w := start.finish b delay rounds
  set { w.engine with schedule := w.engine.schedule.openGate }
  w.callers.mapM fun row =>
    match row.1 with
    | .returned a => pure a
    | .panicked => throw .panicked
    | _ => throw .blocked

def performOneTimed (b : Backend π) (delay rounds : Nat) (p : Plan π (Except Error α)) :
    Operation σ π (Except Error α) := do
  let results ← performTimed b delay rounds [p]
  pure (results.headD (.error .cancelled))

/-- Diagnostics while compiles take time. -/
def diagnosticsTimed (sv : Services σ π) (delay : Nat) (id : SessionId)
    (project? : Option ProjectId) (analyze? : Option Bool) :
    Operation σ π DiagnosticsReport := do
  let s ← Operation.use id
  let analyzed := analyze?.getD (← get).config.edits.includeAnalyzers
  let one (p : ProjectId) :=
    performOneTimed sv.backend delay (rounds s.graph)
      (Plan.diagnostics sv.backend s.context p s.analyzers analyzed).run
  match project? with
  | some p =>
      let ds ← Operation.ofExcept (← one p)
      pure ⟨[⟨p, ds.value, none⟩]⟩
  | none =>
      let entries ← s.graph.topologicalOrder.mapM fun p => do
        pure (entryOf p (← one p))
      pure ⟨entries⟩

/-- A batch of edits while compiles take time. -/
def applyEditsTimed (sv : Services σ π) (delay : Nat) (id : SessionId)
    (edits : List DocumentEdit) : Operation σ π EditOutcome := do
  if edits.isEmpty then Operation.fail .emptyBatch
  let s ← Operation.use id
  let (results, s) := stageAll s.workspace edits s
  Operation.setSession s
  let analyzed := (← get).config.edits.includeAnalyzers
  let found ← performTimed sv.backend delay (rounds s.graph)
    ((affected s.graph (results.filterMap EditResult.project)).map
      (impactPlan sv.backend s.context s.overrides s.analyzers analyzed))
  pure ⟨results, found⟩

end Engine
end Ripple
