import Ripple.Cache.Schedule

/-!
# What a step does

All moves that a request or a task can make, each with what it depends on. A
task that can make none has ended, waits for the backend, or waits for other
tasks.
-/

namespace Ripple
namespace Cache

variable {π : Type}

theorem Tables.lookUp_eq_some_iff {t t' : Tables π} {slot : Slot} {f : Fingerprint}
    {a : Held (Artifact π)} :
    t.lookUp slot f = some (a, t') ↔
      ∃ e, t.entries.get? slot = some e ∧ e.fingerprint = f ∧ e.artifact = a ∧
        t' = { t with
          entries := t.entries.insert slot { e with lastAccess := max e.lastAccess t.clock } } := by
  unfold Tables.lookUp
  cases t.entries.get? slot with
  | none => simp
  | some e =>
      by_cases h : e.fingerprint = f
      · simp [h, eq_comm]
      · simp [h]

/-!
# Moves of a request
-/

namespace Request

inductive Moves (environment : String) (r : Request π) (m : Machine π) :
    Request π × Machine π → Prop where
  | refused {e : Error} (hstage : r.stage = .fresh)
      (hprint : r.context.fingerprint environment r.project = .error e) :
      Moves environment r m ({ r with stage := .settled (.error e) }, m)
  | found {f : Fingerprint} {a : Held (Artifact π)} {tables : Tables π}
      (hstage : r.stage = .fresh)
      (hprint : r.context.fingerprint environment r.project = .ok f)
      (hlook : m.tables.lookUp r.slot f = some (a, tables)) :
      Moves environment r m ({ r with stage := .found ⟨f, a⟩ }, { m with tables := tables })
  | missed {f : Fingerprint} (hstage : r.stage = .fresh)
      (hprint : r.context.fingerprint environment r.project = .ok f)
      (hlook : m.tables.lookUp r.slot f = none) :
      Moves environment r m ({ r with stage := .missed f }, m)
  | hit {found : Resolved π} (hstage : r.stage = .found found) :
      Moves environment r m ({ r with stage := .settled (.ok found) }, m.updateTables .countHit)
  | miss {f : Fingerprint} (hstage : r.stage = .missed f) :
      Moves environment r m ({ r with stage := .joining f }, m.updateTables .countMiss)
  | joined {flight : Flight} (hstage : r.stage = .joining flight.fingerprint)
      (hflight : m.tables.flights.get? r.slot = some flight) :
      Moves environment r m ({ r with stage := .waiting flight.fingerprint flight.ticket }, m)
  | stored {f : Fingerprint} {a : Held (Artifact π)} {tables : Tables π}
      (hstage : r.stage = .joining f) (hlook : m.tables.lookUp r.slot f = some (a, tables)) :
      Moves environment r m
        ({ r with stage := .settled (.ok ⟨f, a⟩) }, { m with tables := tables })
  | tookOff {f : Fingerprint} (hstage : r.stage = .joining f)
      (hlook : m.tables.lookUp r.slot f = none)
      (hother : ∀ flight, m.tables.flights.get? r.slot = some flight → flight.fingerprint ≠ f) :
      Moves environment r m (r.takeOff f m)

theorem moves_of_join {environment : String} {r : Request π} {m : Machine π} {f : Fingerprint}
    (hstage : r.stage = .joining f) : r.Moves environment m (r.join f m) := by
  simp only [join]
  cases hflight : m.tables.flights.get? r.slot with
  | none =>
      have hother : ∀ flight, m.tables.flights.get? r.slot = some flight →
          flight.fingerprint ≠ f := by
        intro flight hsome
        rw [hflight] at hsome
        cases hsome
      cases hlook : m.tables.lookUp r.slot f with
      | none => exact .tookOff hstage hlook hother
      | some found => exact .stored hstage hlook
  | some flight =>
      by_cases hsame : flight.fingerprint = f
      · subst hsame
        simp only [if_true]
        exact .joined hstage hflight
      · have hother : ∀ flight, m.tables.flights.get? r.slot = some flight →
            flight.fingerprint ≠ f := by
          intro flight' hsome
          rw [hflight] at hsome
          cases hsome
          exact hsame
        simp only [if_neg hsame]
        cases hlook : m.tables.lookUp r.slot f with
        | none => exact .tookOff hstage hlook hother
        | some found => exact .stored hstage hlook

theorem moves_of_step (environment : String) {r : Request π} (m : Machine π)
    (hactive : r.isActive) : r.Moves environment m (r.step environment m) := by
  unfold step
  cases hstage : r.stage with
  | fresh =>
      simp only [lookUp]
      cases hprint : r.context.fingerprint environment r.project with
      | error e => exact .refused hstage hprint
      | ok f =>
          simp only
          cases hlook : m.tables.lookUp r.slot f with
          | none => exact .missed hstage hprint hlook
          | some found => exact .found hstage hprint hlook
  | found found => exact .hit hstage
  | missed f => exact .miss hstage
  | joining f => exact moves_of_join hstage
  | waiting f ticket => simp [isActive, hstage] at hactive
  | settled result => simp [isActive, hstage] at hactive

theorem step_of_not_active {environment : String} {r : Request π} {m : Machine π}
    (hactive : ¬ r.isActive) : r.step environment m = (r, m) := by
  unfold step
  cases hstage : r.stage <;> simp [isActive, hstage] at hactive ⊢

theorem Moves.context_eq {environment : String} {r r' : Request π} {m m' : Machine π}
    (h : r.Moves environment m (r', m')) : r'.context = r.context ∧ r'.project = r.project := by
  generalize hnext : (r', m') = next at h
  cases h <;> cases hnext <;> exact ⟨rfl, rfl⟩

theorem Moves.isActive {environment : String} {r : Request π} {m : Machine π}
    {next : Request π × Machine π} (h : r.Moves environment m next) : r.isActive := by
  unfold Request.isActive
  cases h with
  | refused hstage hprint => rw [hstage]
  | found hstage hprint hlook => rw [hstage]
  | missed hstage hprint hlook => rw [hstage]
  | hit hstage => rw [hstage]
  | miss hstage => rw [hstage]
  | joined hstage hflight => rw [hstage]
  | stored hstage hlook => rw [hstage]
  | tookOff hstage hlook hother => rw [hstage]

end Request

/-!
# Moves of a task
-/

/-- Of the requests of a task only the last one can be active. -/
theorem not_active_of_last {asked : List (Request π)}
    (hinit : ∀ r ∈ asked.dropLast, ¬ r.isActive)
    (hlast : ∀ r ∈ asked.getLast?, ¬ r.isActive) : ∀ r ∈ asked, ¬ r.isActive := by
  intro r hr
  cases hfinal : asked.getLast? with
  | none =>
      rw [List.getLast?_eq_none_iff.mp hfinal] at hr
      cases hr
  | some last =>
      rcases List.getLast?_eq_some_iff.mp hfinal with ⟨before, rfl⟩
      rw [List.dropLast_concat] at hinit
      rcases List.mem_append.mp hr with hr | hr
      · exact hinit r hr
      · exact hlast r (by rw [List.mem_singleton.mp hr, hfinal]; rfl)

namespace Task

inductive Moves (b : Backend π) (gateOpen : Bool) (ticket : Nat) (t : Task π) (m : Machine π) :
    Machine π → Prop where
  | unknown (hstage : t.stage = .fresh ∨ ∃ references, t.stage = .counted references)
      (hproject : t.context.workspace.project? t.project = none) :
      Moves b gateOpen ticket t m
        (m.setStage ticket (.landing (.error (.projectNotFound t.project))))
  | entered (hstage : t.stage = .fresh) :
      Moves b gateOpen ticket t m
        (m.setStage ticket
          (.gathering [] (t.context.graph.effectiveDependencies t.project)))
  | stepped {asked : List (Request π)} {r r' : Request π} {m' : Machine π}
      {left : List ProjectId} (hstage : t.stage = .gathering (asked ++ [r]) left)
      (hactive : r.isActive) (hmove : r.Moves b.environment m (r', m')) :
      Moves b gateOpen ticket t m (m'.setStage ticket (.gathering (asked ++ [r']) left))
  | failed {asked : List (Request π)} {left : List ProjectId} {o : Outcome π}
      (hstage : t.stage = .gathering asked left) (hgathered : gathered? m asked = some (.inl o)) :
      Moves b gateOpen ticket t m (m.setStage ticket (.landing o))
  | asked {asked : List (Request π)} {id : ProjectId} {left : List ProjectId}
      (hstage : t.stage = .gathering asked (id :: left))
      (hlast : ∀ r ∈ asked.getLast?, ¬ r.isActive) :
      Moves b gateOpen ticket t m
        (m.setStage ticket (.gathering (asked ++ [.of t.context id]) left))
  | gathered {asked : List (Request π)} {references : List (Held (Artifact π))}
      (hstage : t.stage = .gathering asked [])
      (hgathered : gathered? m asked = some (.inr references)) :
      Moves b gateOpen ticket t m (m.setStage ticket (.gathered references))
  | counted {references : List (Held (Artifact π))} (hstage : t.stage = .gathered references) :
      Moves b gateOpen ticket t m
        ((m.updateTables .countCompile).setStage ticket (.counted references))
  | called {references : List (Held (Artifact π))} {p : Project}
      (hstage : t.stage = .counted references)
      (hproject : t.context.workspace.project? t.project = some p) :
      Moves b gateOpen ticket t m
        ((m.recordCall (.ofProject p (references.map Held.value))).setStage ticket
          (.compiling (.ofProject p (references.map Held.value))))
  | answered {u : CompileUnit π} (hstage : t.stage = .compiling u) (hopen : gateOpen) :
      Moves b gateOpen ticket t m
        ({ m with tables := (conclude t.project m.tables (b.compile u)).2 }.setStage ticket
          (.landing (conclude t.project m.tables (b.compile u)).1))
  | landed {a : Held (Artifact π)} {f : Fingerprint} (hstage : t.stage = .landing (.ok a))
      (hflight : m.tables.flights.get? t.slot = some ⟨ticket, f⟩) :
      Moves b gateOpen ticket t m (m.setStage ticket (.storing a))
  | crashed {e : Error} {f : Fingerprint} (hstage : t.stage = .landing (.error e))
      (hflight : m.tables.flights.get? t.slot = some ⟨ticket, f⟩) :
      Moves b gateOpen ticket t m (m.setStage ticket (.clearing (.error e)))
  | diverted {o : Outcome π} (hstage : t.stage = .landing o)
      (hlost : ∀ flight, m.tables.flights.get? t.slot = some flight → flight.ticket ≠ ticket) :
      Moves b gateOpen ticket t m (m.setStage ticket (.announcing o))
  | stored {a : Held (Artifact π)} (hstage : t.stage = .storing a) :
      Moves b gateOpen ticket t m
        ((m.updateTables fun tables => tables.store t.slot t.fingerprint a).setStage ticket
          (.clearing (.ok a)))
  | cleared {o : Outcome π} (hstage : t.stage = .clearing o) :
      Moves b gateOpen ticket t m
        ((m.updateTables fun tables => tables.dropFlight t.slot).setStage ticket (.announcing o))
  | announced {o : Outcome π} (hstage : t.stage = .announcing o) :
      Moves b gateOpen ticket t m (m.setStage ticket (.announced o))
  | swept {o : Outcome π} (hstage : t.stage = .announced o) :
      Moves b gateOpen ticket t m
        ((m.updateTables fun tables => tables.sweepCapacity.2).setStage ticket (.ended o))

/-- A task that can make no move. -/
inductive Waits (gateOpen : Bool) (t : Task π) (m : Machine π) : Prop where
  | ended {o : Outcome π} (hstage : t.stage = .ended o) : Waits gateOpen t m
  | compiling {u : CompileUnit π} (hstage : t.stage = .compiling u) (hclosed : gateOpen = false) :
      Waits gateOpen t m
  | gathering {asked : List (Request π)} (hstage : t.stage = .gathering asked [])
      (hlast : ∀ r ∈ asked.getLast?, ¬ r.isActive) (hgathered : gathered? m asked = none) :
      Waits gateOpen t m

/-- What a stage calls for: a move, or waiting. -/
def Does (b : Backend π) (gateOpen : Bool) (ticket : Nat) (t : Task π) (m : Machine π) :
    Option (Machine π) → Prop
  | some m' => t.Moves b gateOpen ticket m m'
  | none => t.Waits gateOpen m

theorem does_gather {b : Backend π} {gateOpen : Bool} {ticket : Nat} {t : Task π}
    {m : Machine π} {asked : List (Request π)} {left : List ProjectId}
    (hstage : t.stage = .gathering asked left) :
    t.Does b gateOpen ticket m (t.gather ticket b.environment m asked left) := by
  have hgo (hlast : ∀ r ∈ asked.getLast?, ¬ r.isActive) :
      t.Does b gateOpen ticket m (gather.go t ticket m asked left) := by
    unfold gather.go
    cases hgathered : gathered? m asked with
    | none =>
        cases left with
        | nil => exact .gathering hstage hlast hgathered
        | cons id left => exact .asked hstage hlast
    | some outcome =>
        cases outcome with
        | inl o => exact .failed hstage hgathered
        | inr references =>
            cases left with
            | nil => exact .gathered hstage hgathered
            | cons id left => exact .asked hstage hlast
  unfold gather
  cases hlast : asked.getLast? with
  | none => exact hgo (by simp [hlast])
  | some r =>
      by_cases hactive : r.isActive
      · rcases List.getLast?_eq_some_iff.mp hlast with ⟨before, rfl⟩
        simp only [hactive, if_true, List.dropLast_concat]
        exact .stepped hstage hactive (Request.moves_of_step _ _ hactive)
      · simp only [hactive]
        apply hgo
        intro r' hr'
        rw [hlast] at hr'
        cases hr'
        exact hactive

/-- A task makes a move, or it waits. -/
theorem step_does (b : Backend π) (gateOpen : Bool) {ticket : Nat} {t : Task π}
    {m : Machine π} (ht : m.tasks.get? ticket = some t) :
    t.Does b gateOpen ticket m (step b gateOpen ticket m) := by
  simp only [step, ht, Option.bind_eq_bind, Option.bind_some]
  cases hstage : t.stage with
  | fresh =>
      cases hproject : t.context.workspace.project? t.project with
      | none => exact .unknown (.inl hstage) hproject
      | some p => exact .entered hstage
  | gathering asked left => exact does_gather hstage
  | gathered references => exact .counted hstage
  | counted references =>
      simp only [unit]
      cases hproject : t.context.workspace.project? t.project with
      | none => exact .unknown (.inr ⟨references, hstage⟩) hproject
      | some p => exact .called hstage hproject
  | compiling u =>
      by_cases hopen : gateOpen
      · simp only [hopen, if_true]
        exact .answered hstage rfl
      · simp only [hopen]
        exact .compiling hstage rfl
  | landing o =>
      simp only
      cases hflight : m.tables.flights.get? t.slot with
      | none => exact .diverted hstage (by simp [hflight])
      | some flight =>
          by_cases hown : flight.ticket = ticket
          · subst hown
            simp only [Option.any_some, decide_true, if_true]
            cases o with
            | ok a => exact .landed hstage hflight
            | error e => exact .crashed hstage hflight
          · simp only [Option.any_some, hown, decide_false]
            refine .diverted hstage fun flight' hsome => ?_
            rw [hflight] at hsome
            cases hsome
            exact hown
  | storing a => exact .stored hstage
  | clearing o => exact .cleared hstage
  | announcing o => exact .announced hstage
  | announced o => exact .swept hstage
  | ended o => exact .ended hstage

theorem step_of_no_task {b : Backend π} {gateOpen : Bool} {ticket : Nat} {m : Machine π}
    (ht : m.tasks.get? ticket = none) : step b gateOpen ticket m = none := by
  simp [step, ht]

theorem moves_of_step {b : Backend π} {gateOpen : Bool} {ticket : Nat} {m m' : Machine π}
    (hstep : step b gateOpen ticket m = some m') :
    ∃ t, m.tasks.get? ticket = some t ∧ t.Moves b gateOpen ticket m m' := by
  cases ht : m.tasks.get? ticket with
  | none =>
      rw [step_of_no_task ht] at hstep
      cases hstep
  | some t =>
      have hdoes := step_does b gateOpen ht
      rw [hstep] at hdoes
      exact ⟨t, rfl, hdoes⟩

theorem waits_of_step {b : Backend π} {gateOpen : Bool} {ticket : Nat} {t : Task π}
    {m : Machine π} (ht : m.tasks.get? ticket = some t)
    (hstep : step b gateOpen ticket m = none) : t.Waits gateOpen m := by
  have hdoes := step_does b gateOpen ht
  rw [hstep] at hdoes
  exact hdoes

theorem step_of_waits {b : Backend π} {gateOpen : Bool} {ticket : Nat} {t : Task π}
    {m : Machine π} (ht : m.tasks.get? ticket = some t) (hwaits : t.Waits gateOpen m) :
    step b gateOpen ticket m = none := by
  simp only [step, ht, Option.bind_eq_bind, Option.bind_some]
  cases hwaits with
  | ended hstage =>
      rw [hstage]
  | compiling hstage hclosed =>
      simp [hstage, hclosed]
  | gathering hstage hlast hgathered =>
      rw [hstage]
      simp only [gather, gather.go, hgathered]
      split
      · rename_i r hr
        rw [if_neg (hlast r hr)]
      · rfl

end Task
end Cache
end Ripple
