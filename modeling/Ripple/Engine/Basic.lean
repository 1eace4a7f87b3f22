import Ripple.Cache.Schedule
import Ripple.Session.Basic

/-!
# The engine

The engine is made of a cache, the sessions in the order in which they were
started, and a store. It works with services that are given to every operation:
how the store is used, which backend compiles, and how a choice of analyzers
becomes a set.
-/

namespace Ripple

open Cache

structure Services (σ π : Type) where
  store : Store σ
  backend : Backend π
  analyzers : AnalyzerChoice → Except String AnalyzerSet

/-- When the next sweep of each kind is due, in milliseconds of the timers. -/
structure Maintenance where
  cacheSweep : Nat
  idleSweep : Nat
  deriving DecidableEq, Repr, Inhabited

structure Engine (σ π : Type) where
  config : Config
  schedule : Schedule π
  sessions : Table SessionId Session
  /-- How many sessions have been started. -/
  started : Nat
  store : σ
  maintenance : Option Maintenance
  /-- Milliseconds on the clock of the timers. -/
  timers : Nat

/-- Why an operation gives no answer. -/
inductive Halt where
  | failed (e : Error)
  /-- It waits for a call of the backend that does not come back. -/
  | blocked
  /-- The backend panicked while the operation itself called it. -/
  | panicked
  deriving DecidableEq, Repr, Inhabited

/-- What an operation has changed stays changed when it fails. -/
abbrev Operation (σ π : Type) := ExceptT Halt (StateM (Engine σ π))

namespace Engine

variable {σ π α : Type}

def new (config : Config) (store : σ) (gateOpen : Bool) : Engine σ π :=
  ⟨config, .new config.cache gateOpen, ∅, 0, store, none, 0⟩

def clock (e : Engine σ π) : Nat := e.schedule.tables.clock

def setSession (e : Engine σ π) (s : Session) : Engine σ π :=
  { e with sessions := e.sessions.insert s.id s }

def updateTables (e : Engine σ π) (f : Tables π → Tables π) : Engine σ π :=
  { e with schedule := e.schedule.updateTables f }

/-- Lets all background work run that can run. -/
def settle (sv : Services σ π) (e : Engine σ π) : Engine σ π :=
  { e with schedule := e.schedule.settle sv.backend }

def openGate (e : Engine σ π) : Engine σ π :=
  { e with schedule := e.schedule.openGate }

/-- Lets time pass on the clock of entries and sessions. -/
def tick (e : Engine σ π) (ms : Nat) : Engine σ π :=
  e.updateTables fun t => { t with clock := t.clock + ms }

end Engine

namespace Operation

variable {σ π α : Type}

def fail (e : Error) : Operation σ π α := throw (.failed e)

def ofExcept : Except Error α → Operation σ π α
  | .ok a => pure a
  | .error e => fail e

/-- The session with an id; looking it up does not count as using it. -/
def find (id : SessionId) : Operation σ π Session := do
  match (← get).sessions.get? id with
  | some s => pure s
  | none => fail (.sessionNotFound id)

/-- The session with an id, used now. -/
def use (id : SessionId) : Operation σ π Session := do
  let s ← find id
  let s := { s with lastAccess := (← get).clock }
  modify (·.setSession s)
  pure s

def setSession (s : Session) : Operation σ π Unit :=
  modify (·.setSession s)

def updateTables (f : Tables π → Tables π) : Operation σ π Unit :=
  modify (·.updateTables f)

/-- Reads a file of the store. -/
def readText (sv : Services σ π) (path : Path) : Operation σ π (Except FileError String) := do
  pure (sv.store.read (← get).store path)

def writeText (sv : Services σ π) (path : Path) (text : String) :
    Operation σ π (Except FileError Unit) := do
  let e ← get
  let (result, store) := sv.store.write e.store path text
  set { e with store := store }
  pure result

/-- Loads the workspace at a root. -/
def load (sv : Services σ π) (source : Source) (root : Path) : Operation σ π Workspace := do
  let e ← get
  let (result, store) := sv.store.load e.store source root
  set { e with store := store }
  match result with
  | .ok w => pure w
  | .error cause => fail (.loadFailed root cause)

def ofExit : Schedule.Exit α → Operation σ π α
  | .returned a => pure a
  | .blocked => throw .blocked
  | .panicked => throw .panicked

/-- Carries a plan out. -/
def perform (sv : Services σ π) (p : Plan π α) : Operation σ π α := do
  let e ← get
  let (exit, schedule) := Schedule.drive sv.backend p e.schedule
  set { e with schedule := schedule }
  ofExit exit

/-- Carries plans out side by side, in turns. -/
def performAll (sv : Services σ π) (turns : Nat) (ps : List (Plan π α)) :
    Operation σ π (List α) := do
  let e ← get
  let (exits, schedule) := Schedule.driveAll sv.backend turns ps e.schedule
  set { e with schedule := schedule }
  exits.mapM ofExit

end Operation
end Ripple
