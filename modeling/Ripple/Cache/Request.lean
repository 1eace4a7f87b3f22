import Ripple.Cache.Sweep

/-!
# Requests and compile tasks

A request for an artifact looks the project up and, if that fails, joins the
compile that is under way for its fingerprint or starts one. It then waits for
the task with a ticket. A task requests all effective dependencies of its
project, calls the backend, stores the artifact unless its flight has been
removed or replaced, and announces its outcome. Every stage below is one update
of the tables or one event that others can see.
-/

namespace Ripple
namespace Cache

variable {π : Type}

/-- An artifact with the fingerprint that it was asked for by. -/
structure Resolved (π : Type) where
  fingerprint : Fingerprint
  artifact : Held (Artifact π)
  deriving Repr, Inhabited

abbrev Outcome (π : Type) := Except Error (Held (Artifact π))

inductive RequestStage (π : Type) where
  | fresh
  /-- Looked up; the hit is not counted yet. -/
  | found (r : Resolved π)
  /-- Not there; the miss is not counted yet. -/
  | missed (f : Fingerprint)
  | joining (f : Fingerprint)
  | waiting (f : Fingerprint) (ticket : Nat)
  | settled (result : Except Error (Resolved π))
  deriving Inhabited

structure Request (π : Type) where
  context : Context
  project : ProjectId
  stage : RequestStage π
  deriving Inhabited

inductive TaskStage (π : Type) where
  | fresh
  /-- What has been asked for, in order, and what is still to be asked for. -/
  | gathering (asked : List (Request π)) (left : List ProjectId)
  | gathered (references : List (Held (Artifact π)))
  | counted (references : List (Held (Artifact π)))
  /-- The backend is at work. -/
  | compiling (u : CompileUnit π)
  | landing (o : Outcome π)
  /-- The flight is still the task's own, and its slot is held. -/
  | storing (a : Held (Artifact π))
  | clearing (o : Outcome π)
  | announcing (o : Outcome π)
  /-- The outcome is known; the capacity is still to be enforced. -/
  | announced (o : Outcome π)
  | ended (o : Outcome π)
  deriving Inhabited

structure Task (π : Type) where
  context : Context
  project : ProjectId
  fingerprint : Fingerprint
  stage : TaskStage π
  deriving Inhabited

/-- The tables, the tasks by their tickets, and every unit that the backend has
been called with, in order. -/
structure Machine (π : Type) where
  tables : Tables π
  tasks : Table Nat (Task π)
  calls : List (CompileUnit π)
  deriving Inhabited

namespace TaskStage

/-- The outcome, once it has been announced. -/
def outcome? : TaskStage π → Option (Outcome π)
  | .announced o | .ended o => some o
  | _ => none

def isEnded : TaskStage π → Bool
  | .ended _ => true
  | _ => false

def isCompiling : TaskStage π → Bool
  | .compiling _ => true
  | _ => false

/-- A request of the task waits for the task with a ticket. -/
def waitsFor (ticket : Nat) : TaskStage π → Bool
  | .gathering asked _ => asked.any fun r =>
      match r.stage with
      | .waiting _ t => t = ticket
      | _ => false
  | _ => false

end TaskStage

namespace Machine

def new (settings : CacheSettings) : Machine π :=
  ⟨.new settings, ∅, []⟩

def outcome? (m : Machine π) (ticket : Nat) : Option (Outcome π) :=
  (m.tasks.get? ticket).bind fun t => t.stage.outcome?

def setStage (m : Machine π) (ticket : Nat) (s : TaskStage π) : Machine π :=
  { m with tasks := m.tasks.modify ticket fun t => { t with stage := s } }

def updateTables (m : Machine π) (f : Tables π → Tables π) : Machine π :=
  { m with tables := f m.tables }

def recordCall (m : Machine π) (u : CompileUnit π) : Machine π :=
  { m with calls := m.calls ++ [u] }

def callCount (m : Machine π) (id : ProjectId) : Nat :=
  m.calls.countP fun u => u.project = id

end Machine

/-!
# Steps of a request
-/

namespace Request

def of (ctx : Context) (id : ProjectId) : Request π := ⟨ctx, id, .fresh⟩

def slot (r : Request π) : Slot := ⟨r.context.session, r.project⟩

/-- The result as far as it is known. -/
def result? (r : Request π) (m : Machine π) : Option (Except Error (Resolved π)) :=
  match r.stage with
  | .settled result => some result
  | .waiting f ticket => (m.outcome? ticket).map fun o => o.map fun a => ⟨f, a⟩
  | _ => none

def isActive (r : Request π) : Bool :=
  match r.stage with
  | .settled _ | .waiting _ _ => false
  | _ => true

def lookUp (r : Request π) (environment : String) (m : Machine π) : Request π × Machine π :=
  match r.context.fingerprint environment r.project with
  | .error e => ({ r with stage := .settled (.error e) }, m)
  | .ok f =>
      match m.tables.lookUp r.slot f with
      | some (a, tables) => ({ r with stage := .found ⟨f, a⟩ }, { m with tables := tables })
      | none => ({ r with stage := .missed f }, m)

/-- A task for the request takes off, in the place of a flight that may be there. -/
def takeOff (r : Request π) (f : Fingerprint) (m : Machine π) : Request π × Machine π :=
  let ticket := m.tables.nextTicket
  let tables :=
    { m.tables with
      nextTicket := ticket + 1
      flights := m.tables.flights.insert r.slot ⟨ticket, f⟩ }
  ({ r with stage := .waiting f ticket },
    { m with
      tables := tables
      tasks := m.tasks.insert ticket ⟨r.context, r.project, f, .fresh⟩ })

/-- Joins the flight for the fingerprint if there is one. Otherwise the entry is
looked up once more, since it may have been stored in the meantime. -/
def join (r : Request π) (f : Fingerprint) (m : Machine π) : Request π × Machine π :=
  let start :=
    match m.tables.lookUp r.slot f with
    | some (a, tables) =>
        ({ r with stage := .settled (.ok ⟨f, a⟩) }, { m with tables := tables })
    | none => r.takeOff f m
  match m.tables.flights.get? r.slot with
  | some flight =>
      if flight.fingerprint = f then ({ r with stage := .waiting f flight.ticket }, m) else start
  | none => start

/-- One step of an active request. -/
def step (r : Request π) (environment : String) (m : Machine π) : Request π × Machine π :=
  match r.stage with
  | .fresh => r.lookUp environment m
  | .found found => ({ r with stage := .settled (.ok found) }, m.updateTables .countHit)
  | .missed f => ({ r with stage := .joining f }, m.updateTables .countMiss)
  | .joining f => r.join f m
  | .waiting _ _ | .settled _ => (r, m)

/-- All steps that a request can make on its own, of which there are at most three. -/
def advance (r : Request π) (environment : String) (m : Machine π) : Request π × Machine π :=
  let once := fun (s : Request π × Machine π) => s.1.step environment s.2
  once (once (once (r, m)))

end Request

/-!
# Steps of a task
-/

namespace Task

def slot (t : Task π) : Slot := ⟨t.context.session, t.project⟩

/-- The first failure in the order of the requests, or all artifacts once they
are there. -/
def gathered? (m : Machine π) : List (Request π) → Option (Outcome π ⊕ List (Held (Artifact π)))
  | [] => some (.inr [])
  | r :: rest =>
      match r.result? m with
      | some (.error e) => some (.inl (.error e))
      | some (.ok found) =>
          match gathered? m rest with
          | some (.inr more) => some (.inr (found.artifact :: more))
          | other => other
      | none =>
          match gathered? m rest with
          | some (.inl o) => some (.inl o)
          | _ => none

/-- One step of gathering: the last request goes on, the next one is made, or
what has come back is put together. -/
def gather (t : Task π) (ticket : Nat) (environment : String) (m : Machine π)
    (asked : List (Request π)) (left : List ProjectId) : Option (Machine π) :=
  match asked.getLast? with
  | some r =>
      if r.isActive then
        let (r, m) := r.step environment m
        some (m.setStage ticket (.gathering (asked.dropLast ++ [r]) left))
      else go
  | none => go
where
  go : Option (Machine π) :=
    match gathered? m asked, left with
    | some (.inl o), _ => some (m.setStage ticket (.landing o))
    | _, id :: left => some (m.setStage ticket (.gathering (asked ++ [.of t.context id]) left))
    | some (.inr references), [] => some (m.setStage ticket (.gathered references))
    | none, [] => none

def unit (t : Task π) (references : List (Held (Artifact π))) : Option (CompileUnit π) :=
  (t.context.workspace.project? t.project).map fun p => .ofProject p (references.map Held.value)

/-- What the backend's answer means for the project. -/
def conclude (id : ProjectId) (tables : Tables π) : CompileResult π → Outcome π × Tables π
  | .compiled a =>
      let (held, tables) := tables.stamp a
      (.ok held, tables)
  | .failed cause => (.error (.compileFailed id cause), tables)
  | .panicked => (.error (.compilePanicked id), tables)

/-- One step of the task with a ticket, or nothing where it must wait or has
ended. While the gate is closed no call of the backend comes back. -/
def step (b : Backend π) (gateOpen : Bool) (ticket : Nat) (m : Machine π) : Option (Machine π) := do
  let t ← m.tasks.get? ticket
  match t.stage with
  | .fresh =>
      match t.context.workspace.project? t.project with
      | none => some (m.setStage ticket (.landing (.error (.projectNotFound t.project))))
      | some _ =>
          some (m.setStage ticket
            (.gathering [] (t.context.graph.effectiveDependencies t.project)))
  | .gathering asked left => t.gather ticket b.environment m asked left
  | .gathered references =>
      some ((m.updateTables .countCompile).setStage ticket (.counted references))
  | .counted references =>
      match t.unit references with
      | none => some (m.setStage ticket (.landing (.error (.projectNotFound t.project))))
      | some u => some ((m.recordCall u).setStage ticket (.compiling u))
  | .compiling u =>
      if gateOpen then
        let (o, tables) := conclude t.project m.tables (b.compile u)
        some ({ m with tables := tables }.setStage ticket (.landing o))
      else none
  | .landing o =>
      if (m.tables.flights.get? t.slot).any fun flight => flight.ticket = ticket then
        match o with
        | .ok a => some (m.setStage ticket (.storing a))
        | .error e => some (m.setStage ticket (.clearing (.error e)))
      else some (m.setStage ticket (.announcing o))
  | .storing a =>
      some ((m.updateTables fun tables => tables.store t.slot t.fingerprint a).setStage ticket
        (.clearing (.ok a)))
  | .clearing o =>
      some ((m.updateTables fun tables => tables.dropFlight t.slot).setStage ticket
        (.announcing o))
  | .announcing o => some (m.setStage ticket (.announced o))
  | .announced o =>
      some ((m.updateTables fun tables => tables.sweepCapacity.2).setStage ticket (.ended o))
  | .ended _ => none

end Task
end Cache
end Ripple
