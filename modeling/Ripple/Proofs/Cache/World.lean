import Mathlib.Data.Multiset.AddSub
import Mathlib.Logic.Hydra
import Mathlib.Logic.Relation
import Ripple.Cache.Schedule
import Ripple.Proofs.Cache.Plans

/-!
# The cache and its callers

Any number of clients use one cache. Clients, tasks, batches and upkeep take turns
in any order, one update of the tables or one event at a time, and a client may
give up at any point of its plan.
-/

namespace Ripple
namespace Cache

variable {π : Type}

/-!
# Calls
-/

/-- What a client asks of the cache. Sets of analyzers are given by names. -/
inductive Call where
  | artifact (ctx : Context) (id : ProjectId)
  | diagnostics (ctx : Context) (id : ProjectId) (names : List String) (analyzed : Bool)
  | speculate (ctx : Context) (id : ProjectId) (overrides : Overrides)
  | speculativeDiagnostics (ctx : Context) (id : ProjectId) (overrides : Overrides)
      (names : List String) (analyzed : Bool)

inductive Product (π : Type) where
  | artifact (a : Artifact π)
  | listing (ds : List Diagnostic)

abbrev Reply (π : Type) := Except Error (Product π)

namespace Call

def plan (b : Backend π) : Call → Plan π (Reply π)
  | .artifact ctx id =>
      (Plan.getOrCreate ctx id).run.bind fun result =>
        .done (result.map fun a => .artifact a.value)
  | .diagnostics ctx id names analyzed =>
      (Plan.diagnostics b ctx id (.ofNames names) analyzed).run.bind fun result =>
        .done (result.map fun ds => .listing ds.value)
  | .speculate ctx id overrides =>
      (Plan.speculate ctx id overrides).run.bind fun result =>
        .done (result.map fun a => .artifact a.value)
  | .speculativeDiagnostics ctx id overrides names analyzed =>
      (Plan.speculativeDiagnostics b ctx id overrides (.ofNames names) analyzed).run.bind
        fun result => .done (result.map .listing)

/-- The names whose key the call has taken. -/
def named : Call → List (List String)
  | .diagnostics _ _ names _ | .speculativeDiagnostics _ _ _ names _ => [names]
  | _ => []

end Call

/-!
# Clients
-/

inductive ClientStage (π : Type) where
  | following (plan : Plan π (Reply π))
  | requesting (r : Request π) (next : Except Error (Resolved π) → Plan π (Reply π))
  | compiling (u : CompileUnit π)
      (next : Except String (Held (Artifact π)) → Plan π (Reply π))
  | returned (reply : Reply π)
  | panicked
  | cancelled

namespace ClientStage

def isOut : ClientStage π → Bool
  | .returned _ | .panicked | .cancelled => true
  | _ => false

/-- The project that the next move takes the fingerprint of. -/
def hashes : ClientStage π → List (Context × ProjectId)
  | .requesting ⟨ctx, id, .fresh⟩ _ => [(ctx, id)]
  | _ => []

/-- One move of a client. -/
inductive Moves (b : Backend π) :
    ClientStage π → Schedule π → ClientStage π → Schedule π → Prop where
  | asks {s : Schedule π} {ctx : Context} {id : ProjectId}
      {next : Except Error (Resolved π) → Plan π (Reply π)} :
      Moves b (.following (.request ctx id next)) s (.requesting (.of ctx id) next) s
  | goesOn {s : Schedule π} {r : Request π}
      {next : Except Error (Resolved π) → Plan π (Reply π)} (hactive : r.isActive) :
      Moves b (.requesting r next) s
        (.requesting (r.step b.environment s.machine).1 next)
        (s.after (r.step b.environment s.machine).2)
  | hears {s : Schedule π} {r : Request π}
      {next : Except Error (Resolved π) → Plan π (Reply π)}
      {result : Except Error (Resolved π)} (hresult : r.result? s.machine = some result) :
      Moves b (.requesting r next) s (.following (next result)) s
  | compiles {s : Schedule π} {u : CompileUnit π}
      {next : Except String (Held (Artifact π)) → Plan π (Reply π)} :
      Moves b (.following (.compile u next)) s (.compiling u next) (s.recordCall u)
  | receives {s s' : Schedule π} {u : CompileUnit π}
      {next : Except String (Held (Artifact π)) → Plan π (Reply π)}
      {result : Except String (Held (Artifact π))} (hanswer : s.answer b u = some (result, s')) :
      Moves b (.compiling u next) s (.following (next result)) s'
  | panics {s : Schedule π} {u : CompileUnit π}
      {next : Except String (Held (Artifact π)) → Plan π (Reply π)}
      (hanswer : s.answer b u = none) : Moves b (.compiling u next) s .panicked s
  | consults {s : Schedule π} {key : ListingKey} {next : Option Listing → Plan π (Reply π)} :
      Moves b (.following (.consult key next)) s
        (.following (next (s.tables.listings.get? key))) s
  | files {s : Schedule π} {key : ListingKey} {f : Fingerprint} {ds : List Diagnostic}
      {next : Held (List Diagnostic) → Plan π (Reply π)} :
      Moves b (.following (.file key f ds next)) s
        (.following (next (s.fileListing key f ds).1)) (s.fileListing key f ds).2
  | returns {s : Schedule π} {reply : Reply π} :
      Moves b (.following (.done reply)) s (.returned reply) s

end ClientStage

/-- At most an artifact is stamped when the backend answers a client. -/
theorem Schedule.eq_of_answer {b : Backend π} {s s' : Schedule π} {u : CompileUnit π}
    {result : Except String (Held (Artifact π))} (h : s.answer b u = some (result, s')) :
    s' = s ∨ ∃ a : Artifact π, s' = s.updateTables fun _ => (s.tables.stamp a).2 := by
  unfold answer at h
  cases hcompile : b.compile u with
  | compiled a =>
      rw [hcompile] at h
      cases h
      exact .inr ⟨a, rfl⟩
  | failed cause =>
      rw [hcompile] at h
      cases h
      exact .inl rfl
  | panicked =>
      rw [hcompile] at h
      cases h

/-- A client leaves batches and the gate alone. -/
theorem ClientStage.same_of_moves {b : Backend π} {s s' : Schedule π}
    {stage stage' : ClientStage π} (h : stage.Moves b s stage' s') :
    s'.batches = s.batches ∧ s'.gateOpen = s.gateOpen := by
  cases h with
  | receives hanswer =>
      rcases Schedule.eq_of_answer hanswer with rfl | ⟨a, rfl⟩
      · exact ⟨rfl, rfl⟩
      · exact ⟨rfl, rfl⟩
  | _ => exact ⟨rfl, rfl⟩

structure Client (π : Type) where
  call : Call
  stage : ClientStage π

/-!
# Upkeep
-/

/-- The calls that remove something from the cache, and the single removals that
these calls consist of, since others may come in between them. -/
inductive Upkeep where
  | invalidate (session : SessionId) (project : ProjectId)
  | invalidateDownstream (session : SessionId) (g : Graph) (project : ProjectId)
  | invalidateSession (session : SessionId)
  | sweepExpired (maxAge : Nat)
  | sweepCapacity
  | dropFlight (slot : Slot)
  | dropEntry (slot : Slot)
  | dropListings (slot : Slot)
  | countEvictions (n : Nat)

def Upkeep.apply : Upkeep → Tables π → Tables π
  | .invalidate session project, t => t.invalidate session project
  | .invalidateDownstream session g project, t => t.invalidateDownstream session g project
  | .invalidateSession session, t => t.invalidateSession session
  | .sweepExpired maxAge, t => (t.sweepExpired maxAge).2
  | .sweepCapacity, t => t.sweepCapacity.2
  | .dropFlight slot, t => t.dropFlight slot
  | .dropEntry slot, t => t.dropEntry slot
  | .dropListings slot, t => t.dropListings slot
  | .countEvictions n, t => t.countEvictions n

theorem Upkeep.within (u : Upkeep) (t : Tables π) : t.Within (u.apply t) := by
  cases u with
  | invalidate session project => exact Tables.within_invalidate t session project
  | invalidateDownstream session g project =>
      exact Tables.within_invalidateDownstream t session g project
  | invalidateSession session => exact Tables.within_invalidateSession t session
  | sweepExpired maxAge => exact Tables.within_sweepExpired t maxAge
  | sweepCapacity => exact Tables.within_sweepCapacity t
  | dropFlight slot => exact Tables.within_dropFlight t slot
  | dropEntry slot => exact Tables.within_dropEntry t slot
  | dropListings slot => exact Tables.within_dropListings t slot
  | countEvictions n => exact Tables.within_countEvictions t n

/-!
# The world

What the clients have had hashed is remembered: the projects whose fingerprints
they have taken, and the names of their sets of analyzers.
-/

structure World (π : Type) where
  schedule : Schedule π
  clients : List (Client π)
  printed : List (Context × ProjectId)
  named : List (List String)

namespace World

def start (settings : CacheSettings) : World π :=
  ⟨.new settings true, [], [], []⟩

/-- A step of what is under way: of a task, or of a client. -/
inductive Work (b : Backend π) (w : World π) : World π → Prop where
  | job {job : Job} {s : Schedule π} (hjob : w.schedule.stepJob b job = some s) :
      Work b w { w with schedule := s }
  | client {before after : List (Client π)} {c : Client π} {stage : ClientStage π}
      {s : Schedule π} (hclients : w.clients = before ++ c :: after)
      (hmove : c.stage.Moves b w.schedule stage s) :
      Work b w
        { w with
          schedule := s
          clients := before ++ { c with stage := stage } :: after
          printed := c.stage.hashes ++ w.printed }

/-- Anything that can happen next. -/
inductive Step (b : Backend π) (w : World π) : World π → Prop where
  | work {w' : World π} (hwork : w.Work b w') : Step b w w'
  | call (call : Call) :
      Step b w
        { w with
          clients := w.clients ++ [⟨call, .following (call.plan b)⟩]
          named := call.named ++ w.named }
  | cancel {before after : List (Client π)} {c : Client π}
      (hclients : w.clients = before ++ c :: after) (hin : ¬ c.stage.isOut) :
      Step b w { w with clients := before ++ { c with stage := .cancelled } :: after }
  /-- Requests that nobody waits for. -/
  | batch (rows : List (Context × ProjectId)) :
      Step b w
        { w with
          schedule := (w.schedule.startBatch (rows.map fun row => .of row.1 row.2)).2
          printed := rows ++ w.printed }
  | abort (number : Nat) : Step b w { w with schedule := w.schedule.abortBatch number }
  /-- A job that cannot make a step leaves the queue. -/
  | leave {job : Job} {rest : List Job} (hqueue : w.schedule.queue = job :: rest)
      (hjob : w.schedule.stepJob b job = none) :
      Step b w { w with schedule := { w.schedule with queue := rest } }
  | upkeep (u : Upkeep) :
      Step b w { w with schedule := w.schedule.updateTables u.apply }
  | tick (elapsed : Nat) :
      Step b w
        { w with
          schedule := w.schedule.updateTables fun t => { t with clock := t.clock + elapsed } }

/-- What can become of a fresh cache, whatever is done with it. -/
def Reachable (b : Backend π) (settings : CacheSettings) (w : World π) : Prop :=
  Relation.ReflTransGen (Step b) (.start settings) w

/-- All streams that have been hashed. -/
def hashed (b : Backend π) (w : World π) : Set (List UInt8) :=
  { stream |
    (∃ row ∈ w.printed, row.1.Hashes b.environment row.2 stream) ∨
      ∃ names ∈ w.named, stream = Stream.ofNames (AnalyzerSet.normalize names) }

/-- Nothing that has been hashed collides, and all lengths fit into words. -/
structure Ordinary (b : Backend π) (w : World π) : Prop where
  free : CollisionFree b.environment (w.hashed b)
  contexts : ∀ row ∈ w.printed, row.1.Fits
  names : ∀ names ∈ w.named, ListFits TextFits (AnalyzerSet.normalize names)

/-- What has been hashed is among some streams. -/
structure Known (b : Backend π) (streams : Set (List UInt8)) (w : World π) : Prop where
  printed : ∀ row ∈ w.printed, row.1.Covered b.environment streams row.2
  named : ∀ names ∈ w.named, Named streams (.ofNames names)

theorem Ordinary.known {b : Backend π} {w : World π} (h : w.Ordinary b) :
    w.Known b (w.hashed b) where
  printed row hrow := ⟨h.contexts row hrow, fun _ hs => .inl ⟨row, hrow, hs⟩⟩
  named names hnames := ⟨names, rfl, .inr ⟨names, hnames, rfl⟩, h.names names hnames⟩

/-- What is known after a step includes what was known before. -/
theorem Known.of_step {b : Backend π} {streams : Set (List UInt8)} {w w' : World π}
    (h : w'.Known b streams) (hstep : w.Step b w') : w.Known b streams := by
  cases hstep with
  | work hwork =>
      cases hwork with
      | job hjob => exact ⟨h.printed, h.named⟩
      | client hclients hmove =>
          exact ⟨fun row hrow => h.printed row (List.mem_append_right _ hrow), h.named⟩
  | call call =>
      exact ⟨h.printed, fun names hnames => h.named names (List.mem_append_right _ hnames)⟩
  | cancel hclients hin => exact ⟨h.printed, h.named⟩
  | batch rows =>
      exact ⟨fun row hrow => h.printed row (List.mem_append_right _ hrow), h.named⟩
  | abort number => exact ⟨h.printed, h.named⟩
  | leave hqueue hjob => exact ⟨h.printed, h.named⟩
  | upkeep u => exact ⟨h.printed, h.named⟩
  | tick elapsed => exact ⟨h.printed, h.named⟩

end World
end Cache
end Ripple
