import Ripple.Proofs.Cache.Termination

/-!
# Turns

A task that publishes holds its slot: from the check that the flight is its own up
to the moment at which it takes the flight out, nobody else can change the flight
of the slot. The backend may answer differently from one call to the next, which
means that each turn is one of some backend out of a set.
-/

namespace Ripple
namespace Cache

variable {π : Type}

/-!
# Slots that are held
-/

/-- The task is publishing. -/
def TaskStage.isHolding : TaskStage π → Bool
  | .storing _ | .clearing _ => true
  | _ => false

namespace Machine

/-- The flights of held slots stay, unless it is the holder itself that has gone on. -/
def Spares (m m' : Machine π) : Prop :=
  ∀ ⦃ticket t⦄, m.tasks.get? ticket = some t → m'.tasks.get? ticket = some t →
    t.stage.isHolding → m'.tables.flights.get? t.slot = m.tables.flights.get? t.slot

theorem spares_of_flights_eq {m m' : Machine π} (h : m'.tables.flights = m.tables.flights) :
    m.Spares m' := by
  intro ticket t _ _ _
  rw [h]

/-- No slot is held. -/
def Free (m : Machine π) : Prop :=
  ∀ ⦃ticket t⦄, m.tasks.get? ticket = some t → ¬ t.stage.isHolding

/-- Where no slot is held everything is spared. -/
theorem Free.spares {m m' : Machine π} (h : m.Free) : m.Spares m' :=
  fun _ _ ht _ hholding => absurd hholding (h ht)

theorem free_new (settings : CacheSettings) : (new settings : Machine π).Free :=
  fun _ _ ht => nomatch ht

/-- A task that takes off holds no slot. -/
theorem Free.takeOff {m : Machine π} (h : m.Free) (r : Request π) (f : Fingerprint) :
    (r.takeOff f m).2.Free := by
  intro ticket t ht
  rcases Request.get?_of_takeOff ht with ⟨_, rfl⟩ | ⟨_, ht⟩
  · exact Bool.false_ne_true
  · exact h ht

/-- A task that does not hold its slot spares what the rest of its step spares. -/
theorem Spares.of_setStage {m m' : Machine π} {ticket : Nat} {t : Task π} {s : TaskStage π}
    (h : m.Spares (m'.setStage ticket s)) (ht : m.tasks.get? ticket = some t)
    (hstage : ¬ t.stage.isHolding) : m.Spares m' := by
  intro k other hk hk' hholding
  refine h hk ?_ hholding
  have hne : k ≠ ticket := by
    intro heq
    subst heq
    rw [ht] at hk
    cases hk
    exact hstage hholding
  rw [get?_setStage, if_neg hne]
  exact hk'

/-- What a turn does to the machine: a task moves, a request does, something is
removed, or neither tasks nor entries nor flights change. -/
inductive Turns (backends : Set (Backend π)) (allowed : Set Upkeep) (m : Machine π) :
    Machine π → Prop where
  | task {b : Backend π} {gateOpen : Bool} {ticket : Nat} {t : Task π} {m' : Machine π}
      (hb : b ∈ backends) (ht : m.tasks.get? ticket = some t)
      (hmove : t.Moves b gateOpen ticket m m') : Turns backends allowed m m'
  | request {b : Backend π} {r r' : Request π} {m' : Machine π} (hb : b ∈ backends)
      (hmove : r.Moves b.environment m (r', m')) : Turns backends allowed m m'
  | upkeep {u : Upkeep} (hu : u ∈ allowed) :
      Turns backends allowed m (m.updateTables u.apply)
  | aside {m' : Machine π} (htasks : m'.tasks = m.tasks)
      (hentries : m'.tables.entries = m.tables.entries)
      (hflights : m'.tables.flights = m.tables.flights)
      (hticket : m'.tables.nextTicket = m.tables.nextTicket) : Turns backends allowed m m'

theorem Turns.refl {backends : Set (Backend π)} {allowed : Set Upkeep} (m : Machine π) :
    m.Turns backends allowed m :=
  .aside rfl rfl rfl rfl

end Machine

/-!
# Turns of the world
-/

/-- What the sweeps do, and the single removals that they consist of. -/
def Upkeep.IsSweep : Upkeep → Prop
  | .sweepExpired _ | .sweepCapacity | .dropEntry _ | .dropListings _ | .countEvictions _ => True
  | _ => False

/-- All that sweeps may do. -/
def sweeps : Set Upkeep := { u | u.IsSweep }

namespace World

abbrev machine (w : World π) : Machine π := w.schedule.machine

/-- A step of the world by one of the backends, with the upkeep that is allowed. -/
inductive Turn (backends : Set (Backend π)) (allowed : Set Upkeep) (w : World π) :
    World π → Prop where
  | work {b : Backend π} {w' : World π} (hb : b ∈ backends) (hwork : w.Work b w')
      (hspares : w.machine.Spares w'.machine) : Turn backends allowed w w'
  /-- Calls, cancellations and batches, which leave the machine alone. -/
  | aside {b : Backend π} {w' : World π} (hb : b ∈ backends) (hstep : w.Step b w')
      (hmachine : w'.machine = w.machine) : Turn backends allowed w w'
  | upkeep {u : Upkeep} (hu : u ∈ allowed)
      (hspares : w.machine.Spares (w.machine.updateTables u.apply)) :
      Turn backends allowed w { w with schedule := w.schedule.updateTables u.apply }
  | tick (elapsed : Nat) :
      Turn backends allowed w
        { w with
          schedule := w.schedule.updateTables fun t => { t with clock := t.clock + elapsed } }

/-- One turn after another. -/
def Leads (backends : Set (Backend π)) (allowed : Set Upkeep) : World π → World π → Prop :=
  Relation.ReflTransGen (Turn backends allowed)

/-- What can become of a fresh cache turn by turn. -/
def Attained (backends : Set (Backend π)) (allowed : Set Upkeep) (settings : CacheSettings)
    (w : World π) : Prop :=
  Leads backends allowed (.start settings) w

variable {backends : Set (Backend π)} {allowed : Set Upkeep} {w w' : World π}

/-- Every turn is a step of the world that some backend allows. -/
theorem Turn.step (h : w.Turn backends allowed w') :
    (∃ b ∈ backends, w.Step b w') ∨ ∀ b, w.Step b w' := by
  cases h with
  | work hb hwork hspares => exact .inl ⟨_, hb, .work hwork⟩
  | aside hb hstep hmachine => exact .inl ⟨_, hb, hstep⟩
  | upkeep hu hspares => exact .inr fun b => .upkeep _
  | tick elapsed => exact .inr fun b => .tick elapsed

theorem turns_of_steps {b : Backend π} (hb : b ∈ backends) {s s' : Schedule π} {job : Job}
    (h : s.Steps b job s') : s.machine.Turns backends allowed s'.machine := by
  cases h with
  | task ht hmove => exact .task hb ht hmove
  | batch hbatch hactive hmove => exact .request hb hmove

theorem turns_of_moves {b : Backend π} (hb : b ∈ backends) {s s' : Schedule π}
    {stage stage' : ClientStage π} (h : stage.Moves b s stage' s') :
    s.machine.Turns backends allowed s'.machine := by
  cases h with
  | goesOn hactive => exact .request hb (Request.moves_of_step _ _ hactive)
  | compiles => exact .aside rfl rfl rfl rfl
  | receives hanswer =>
      rcases Schedule.eq_of_answer hanswer with rfl | ⟨a, rfl⟩
      · exact .refl _
      · exact .aside rfl rfl rfl rfl
  | files => exact .aside rfl rfl rfl rfl
  | _ => exact .refl _

theorem turns_of_work {b : Backend π} (hb : b ∈ backends) (h : w.Work b w') :
    w.machine.Turns backends allowed w'.machine := by
  cases h with
  | job hjob => exact turns_of_steps hb (Schedule.steps_of_stepJob hjob)
  | client hclients hmove => exact turns_of_moves hb hmove

/-- What a turn does to the machine, and that it spares the slots that are held. -/
theorem Turn.machine (h : w.Turn backends allowed w') :
    w.machine.Turns backends allowed w'.machine ∧ w.machine.Spares w'.machine := by
  cases h with
  | work hb hwork hspares =>
      constructor
      · exact turns_of_work hb hwork
      · exact hspares
  | aside hb hstep hmachine =>
      rw [hmachine]
      constructor
      · exact .refl _
      · exact Machine.spares_of_flights_eq rfl
  | upkeep hu hspares =>
      constructor
      · exact .upkeep hu
      · exact hspares
  | tick elapsed =>
      constructor
      · exact .aside rfl rfl rfl rfl
      · exact Machine.spares_of_flights_eq rfl

end World
end Cache
end Ripple
