import Ripple.Engine.Basic

/-!
# The life of a session

A session is started from a root, may be loaded anew, and ends when it is told
to or has been idle for too long. With it goes what the cache holds for it. The
projects that need no other are compiled in the background when a workspace has
been loaded.
-/

namespace Ripple
namespace Engine

open Cache

variable {σ π : Type}

/-!
# Compiling ahead
-/

def abortPrewarm (s : Session) (e : Engine σ π) : Engine σ π :=
  match s.prewarm with
  | none => e
  | some batch => { e with schedule := e.schedule.abortBatch batch }

/-- Requests the leaves of a session in the background. -/
def prewarm (s : Session) (e : Engine σ π) : Engine σ π :=
  let leaves := s.graph.leaves
  if !e.config.sessions.prewarm || leaves.isEmpty then e
  else
    let (batch, schedule) :=
      (e.abortPrewarm s).schedule.startBatch (leaves.map fun id => .of s.context id)
    { e with schedule := schedule }.setSession { s with prewarm := some batch }

def isPrewarming (e : Engine σ π) (s : Session) : Bool :=
  s.prewarm.any e.schedule.isRunning

/-!
# Start, refresh and end
-/

/-- Sessions are numbered as they are started. -/
def nextId (e : Engine σ π) : SessionId :=
  ⟨"s" ++ toString (e.started + 1)⟩

def start (sv : Services σ π) (source : Source) (root : Path) (choice : AnalyzerChoice) :
    Operation σ π SessionId := do
  let w ← Operation.load sv source root
  match sv.analyzers choice with
  | .error cause => Operation.fail (.analyzersNotLoaded cause)
  | .ok analyzers =>
      let e ← get
      let s := Session.start e.nextId root source analyzers w e.clock
      set ({ e with started := e.started + 1 }.setSession s |>.prewarm s)
      pure s.id

/-- Loads the workspace anew. Pending edits and everything in the cache are
given up, but only when the workspace could be loaded. -/
def refresh (sv : Services σ π) (id : SessionId) : Operation σ π Unit := do
  let s ← Operation.use id
  let w ← Operation.load sv s.source s.root
  modify (·.abortPrewarm s)
  let s := { (s.discardPending.replaceWorkspace w) with phase := .clean, prewarm := none }
  Operation.setSession s
  Operation.updateTables fun t => t.invalidateSession id
  modify (·.prewarm s)

/-- Takes a session out, and what the cache holds for it. -/
def remove (s : Session) (e : Engine σ π) : Engine σ π :=
  let e := { e with sessions := e.sessions.erase s.id }
  (e.abortPrewarm s).updateTables fun t => t.invalidateSession s.id

def finish (id : SessionId) : Operation σ π Unit := do
  let s ← Operation.find id
  modify (·.remove s)

def pause (id : SessionId) : Operation σ π Unit := do
  let s ← Operation.use id
  Operation.setSession { s with isPaused := true }

def unpause (id : SessionId) : Operation σ π Unit := do
  let s ← Operation.use id
  Operation.setSession { s with isPaused := false }

/-!
# Sweeps

Between two operations some time passes that the clock is too coarse to show, so
a session that has been idle for as long as a threshold has been idle for longer.
-/

def isIdle (threshold : Nat) (e : Engine σ π) (s : Session) : Bool :=
  s.lastAccess + threshold ≤ e.clock

/-- Ends the sessions that have been idle for longer than a threshold. -/
def sweepIdle (threshold : Nat) (e : Engine σ π) : List SessionId × Engine σ π :=
  let idle := e.sessions.values.filter (e.isIdle threshold)
  (idle.map Session.id, idle.foldl (fun e s => e.remove s) e)

def shutDown (e : Engine σ π) : Engine σ π :=
  e.sessions.values.foldl (fun e s => e.remove s) { e with maintenance := none }

def milliseconds (seconds : Nat) : Nat := seconds * 1000

/-- Makes the sweeps due one interval from now, unless they are due already. -/
def startMaintenance (e : Engine σ π) : Engine σ π :=
  match e.maintenance with
  | some _ => e
  | none =>
      { e with
        maintenance := some
          ⟨e.timers + milliseconds e.config.cache.sweepInterval,
            e.timers + milliseconds e.config.sessions.idleSweepInterval⟩ }

/-- Carries out the sweeps that are due, each once; the next is due one interval
from now. -/
def runDueSweeps (e : Engine σ π) : Engine σ π :=
  match e.maintenance with
  | none => e
  | some m =>
      let now := e.timers
      let (m, e) :=
        if m.cacheSweep ≤ now then
          ({ m with cacheSweep := now + milliseconds e.config.cache.sweepInterval },
            e.updateTables fun t => (t.sweepExpired (milliseconds e.config.cache.maxEntryAge)).2)
        else (m, e)
      let (m, e) :=
        if m.idleSweep ≤ now then
          ({ m with idleSweep := now + milliseconds e.config.sessions.idleSweepInterval },
            (e.sweepIdle (milliseconds e.config.sessions.idleTimeout)).2)
        else (m, e)
      { e with maintenance := some m }

/-- Lets time pass on the clock of the timers. -/
def advance (e : Engine σ π) (seconds : Nat) : Engine σ π :=
  { e with timers := e.timers + milliseconds seconds }.runDueSweeps

/-!
# Status
-/

structure SessionStatus where
  session : Session
  documentCount : Nat
  cachedEntries : Nat
  isPrewarming : Bool

def status (id : SessionId) : Operation σ π SessionStatus := do
  let s ← Operation.use id
  let e ← get
  pure ⟨s, s.workspace.documentCount, e.schedule.tables.sessionEntryCount id, e.isPrewarming s⟩

end Engine
end Ripple
