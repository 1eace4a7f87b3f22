import Ripple.Proofs.Cache.Effects
import Ripple.Proofs.Cache.Transparency

/-!
# Runs

How clients and tasks come along if nobody gets in between: a client gets its compile
off, a task calls the backend, and a task stores what the backend has answered.
-/

namespace Ripple
namespace Cache

variable {π : Type}

/-- A request takes off where it finds neither an entry nor a flight for its fingerprint. -/
theorem Request.join_eq_takeOff {r : Request π} {f : Fingerprint} {m : Machine π}
    (hlook : ∀ a, m.tables.stored? r.slot ≠ some (f, a))
    (hother : ∀ flight, m.tables.flights.get? r.slot = some flight → flight.fingerprint ≠ f) :
    r.join f m = r.takeOff f m := by
  simp only [join, Tables.lookUp_eq_none_iff.mpr hlook]
  cases hflight : m.tables.flights.get? r.slot with
  | none => rfl
  | some flight => simp only [if_neg (hother flight hflight)]

/-- Where something is stored there still is something. -/
def Machine.Retains (m m' : Machine π) : Prop :=
  ∀ ⦃slot⦄, (m.tables.stored? slot).isSome → (m'.tables.stored? slot).isSome

theorem Machine.retains_of_entries_eq {m m' : Machine π}
    (h : m'.tables.entries = m.tables.entries) : m.Retains m' := by
  intro slot hstored
  rw [Tables.stored?_congr h]
  exact hstored

theorem Machine.retains_store {m : Machine π} (slot : Slot) (f : Fingerprint)
    (a : Held (Artifact π)) : m.Retains (m.updateTables fun tables => tables.store slot f a) := by
  intro slot' hstored
  simp only [Machine.updateTables, Tables.stored?_store]
  by_cases h : slot' = slot
  · rw [if_pos h]
    rfl
  · rw [if_neg h]
    exact hstored

namespace World

variable {backends : Set (Backend π)} {allowed : Set Upkeep} {w w' : World π} {b : Backend π}

/-- A turn that starts no batch and removes no entry. -/
structure Calm (backends : Set (Backend π)) (allowed : Set Upkeep) (w w' : World π) : Prop where
  turn : w.Turn backends allowed w'
  retains : w.machine.Retains w'.machine
  batches : w'.schedule.batches = w.schedule.batches

/-- One such turn after another. -/
def Retaining (backends : Set (Backend π)) (allowed : Set Upkeep) : World π → World π → Prop :=
  Relation.ReflTransGen (Calm backends allowed)

theorem Retaining.leads (h : w.Retaining backends allowed w') : w.Leads backends allowed w' :=
  Relation.ReflTransGen.mono (fun _ _ => Calm.turn) _ _ h

/-!
# The gate
-/

theorem gateOpen_of_work (h : w.Work b w') : w'.schedule.gateOpen = w.schedule.gateOpen := by
  cases h with
  | job hjob => cases Schedule.steps_of_stepJob hjob <;> rfl
  | client hclients hmove => exact (ClientStage.same_of_moves hmove).right

theorem gateOpen_of_turn (h : w.Turn backends allowed w') :
    w'.schedule.gateOpen = w.schedule.gateOpen := by
  cases h with
  | work hb hwork hspares => exact gateOpen_of_work hwork
  | aside hb hstep hmachine =>
      cases hstep with
      | work hwork => exact gateOpen_of_work hwork
      | _ => rfl
  | upkeep hu hspares => rfl
  | tick elapsed => rfl

/-- Calls of the backend may come back at any time. -/
theorem gateOpen_of_leads (h : w.Leads backends allowed w') :
    w'.schedule.gateOpen = w.schedule.gateOpen := by
  induction h with
  | refl => rfl
  | tail _ hturn ih => exact (gateOpen_of_turn hturn).trans ih

/-!
# Clients
-/

/-- A client makes a move. -/
theorem leads_move (hb : b ∈ backends) {before after : List (Client π)} {call : Call}
    {stage stage' : ClientStage π} {s : Schedule π}
    (hclients : w.clients = before ++ ⟨call, stage⟩ :: after)
    (hmove : stage.Moves b w.schedule stage' s) (hspares : w.machine.Spares s.machine)
    (hretains : w.machine.Retains s.machine) :
    ∃ w' : World π, w.Retaining backends allowed w' ∧
      w'.clients = before ++ ⟨call, stage'⟩ :: after ∧ w'.schedule = s ∧
      w'.printed = stage.hashes ++ w.printed :=
  ⟨_, .single ⟨.work hb (.client hclients hmove) hspares, hretains,
    (ClientStage.same_of_moves hmove).left⟩, rfl, rfl, rfl⟩

section

variable {ctx : Context} {id : ProjectId} {f : Fingerprint}

/-- A client whose request finds no entry for its fingerprint turns to the flights. -/
theorem leads_joining (hb : b ∈ backends) (hprint : ctx.print b.environment id = .ok f)
    (hlook : ∀ a, w.machine.tables.stored? ⟨ctx.session, id⟩ ≠ some (f, a)) :
    ∃ (w' : World π) (next : Except Error (Resolved π) → Plan π (Reply π)),
      w.Retaining backends allowed w' ∧
        w'.clients = w.clients ++
          [⟨.artifact ctx id, .requesting ⟨ctx, id, .joining f⟩ next⟩] ∧
        w'.machine = w.machine.updateTables .countMiss ∧
        w'.printed = (ctx, id) :: w.printed ∧
        (Call.artifact ctx id).plan b = .request ctx id next := by
  let call : Call := .artifact ctx id
  let r (stage : RequestStage π) : Request π := ⟨ctx, id, stage⟩
  obtain ⟨next, hplan⟩ : ∃ next, call.plan b = .request ctx id next := ⟨_, rfl⟩
  let called : World π :=
    { w with
      clients := w.clients ++ [⟨call, .following (.request ctx id next)⟩]
      named := call.named ++ w.named }
  have hcalled : w.Retaining backends allowed called := by
    have hstep : w.Step b _ := .call call
    rw [hplan] at hstep
    exact .single ⟨.aside hb hstep rfl, Machine.retains_of_entries_eq rfl, rfl⟩
  have hasked : called.clients = w.clients ++ [⟨call, .following (.request ctx id next)⟩] := rfl
  rcases leads_move hb hasked .asks (Machine.spares_of_flights_eq rfl)
      (Machine.retains_of_entries_eq rfl) with
    ⟨w₁, h₁, hclients₁, hw₁, hprinted₁⟩
  have hmachine₁ : w₁.machine = w.machine := congrArg Schedule.machine hw₁
  have hmissed : (r .fresh).step b.environment w₁.machine = (r (.missed f), w₁.machine) := by
    rw [hmachine₁]
    simp only [r, Request.step, Request.lookUp, Context.fingerprint_eq_print, hprint,
      Request.slot, Tables.lookUp_eq_none_iff.mpr hlook]
  have htables : ((r .fresh).step b.environment w₁.machine).2.tables = w₁.machine.tables :=
    congrArg (Machine.tables ∘ Prod.snd) hmissed
  rcases leads_move hb hclients₁ (.goesOn rfl)
      (Machine.spares_of_flights_eq (congrArg Tables.flights htables))
      (Machine.retains_of_entries_eq (congrArg Tables.entries htables)) with
    ⟨w₂, h₂, hclients₂, hw₂, hprinted₂⟩
  change w₂.clients = w.clients ++
    [⟨call, .requesting ((r .fresh).step b.environment w₁.machine).1 next⟩] at hclients₂
  rw [hmissed] at hclients₂
  have hmachine₂ : w₂.machine = w₁.machine :=
    (congrArg Schedule.machine hw₂).trans (congrArg Prod.snd hmissed)
  rcases leads_move hb hclients₂ (.goesOn rfl)
      (Machine.spares_of_flights_eq rfl) (Machine.retains_of_entries_eq rfl) with
    ⟨w₃, h₃, hclients₃, hw₃, hprinted₃⟩
  refine ⟨w₃, next, ((hcalled.trans h₁).trans h₂).trans h₃, hclients₃, ?_, ?_, hplan⟩
  · rw [← hmachine₁, ← hmachine₂]
    exact congrArg Schedule.machine hw₃
  · rw [hprinted₃, hprinted₂, hprinted₁]
    rfl

/-- A client that finds a flight for its fingerprint waits for its task. -/
theorem leads_joined (hb : b ∈ backends) (hprint : ctx.print b.environment id = .ok f)
    (hlook : ∀ a, w.machine.tables.stored? ⟨ctx.session, id⟩ ≠ some (f, a)) {ticket : Nat}
    (hflight : w.machine.tables.flights.get? ⟨ctx.session, id⟩ = some ⟨ticket, f⟩) :
    ∃ (w' : World π) (next : Except Error (Resolved π) → Plan π (Reply π)),
      w.Retaining backends allowed w' ∧
        w'.clients = w.clients ++
          [⟨.artifact ctx id, .requesting ⟨ctx, id, .waiting f ticket⟩ next⟩] ∧
        w'.machine = w.machine.updateTables .countMiss ∧
        (Call.artifact ctx id).plan b = .request ctx id next := by
  let r : Request π := ⟨ctx, id, .joining f⟩
  rcases leads_joining hb hprint hlook with ⟨w₁, next, h₁, hclients₁, hm₁, _, hplan⟩
  have hjoined : r.step b.environment w₁.machine =
      (⟨ctx, id, .waiting f ticket⟩, w₁.machine) := by
    have hflight₁ : w₁.machine.tables.flights.get? r.slot = some ⟨ticket, f⟩ := by
      rw [hm₁]
      exact hflight
    simp only [r, Request.step, Request.join] at hflight₁ ⊢
    simp only [hflight₁, if_true]
  have htables : (r.step b.environment w₁.machine).2.tables = w₁.machine.tables :=
    congrArg (Machine.tables ∘ Prod.snd) hjoined
  rcases leads_move hb hclients₁ (.goesOn rfl)
      (Machine.spares_of_flights_eq (congrArg Tables.flights htables))
      (Machine.retains_of_entries_eq (congrArg Tables.entries htables)) with
    ⟨w₂, h₂, hclients₂, hw₂, _⟩
  change w₂.clients = w.clients ++
    [⟨.artifact ctx id, .requesting (r.step b.environment w₁.machine).1 next⟩] at hclients₂
  rw [hjoined] at hclients₂
  refine ⟨w₂, next, h₁.trans h₂, hclients₂, ?_, hplan⟩
  rw [← hm₁]
  exact (congrArg Schedule.machine hw₂).trans (congrArg Prod.snd hjoined)

/-- A client whose request finds neither an entry nor a flight for its fingerprint gets
its compile off, and waits for it. -/
theorem leads_takeOff (hb : b ∈ backends) (hfree : w.machine.Free)
    (hprint : ctx.print b.environment id = .ok f)
    (hlook : ∀ a, w.machine.tables.stored? ⟨ctx.session, id⟩ ≠ some (f, a))
    (hother : ∀ flight, w.machine.tables.flights.get? ⟨ctx.session, id⟩ = some flight →
      flight.fingerprint ≠ f) :
    ∃ (w' : World π) (next : Except Error (Resolved π) → Plan π (Reply π)),
      w.Retaining backends allowed w' ∧
        w'.clients = w.clients ++ [⟨.artifact ctx id, .requesting
          ⟨ctx, id, .waiting f w.machine.tables.nextTicket⟩ next⟩] ∧
        w'.machine = ((Request.of ctx id).takeOff f (w.machine.updateTables .countMiss)).2 ∧
        w'.printed = (ctx, id) :: w.printed ∧
        (Call.artifact ctx id).plan b = .request ctx id next := by
  let r : Request π := ⟨ctx, id, .joining f⟩
  rcases leads_joining hb hprint hlook with ⟨w₁, next, h₁, hclients₁, hm₁, hprinted₁, hplan⟩
  have hjoined : r.step b.environment w₁.machine =
      (Request.of ctx id).takeOff f (w.machine.updateTables .countMiss) := by
    rw [hm₁]
    exact Request.join_eq_takeOff hlook hother
  have hfree₁ : w₁.machine.Free := by
    rw [hm₁]
    exact hfree
  have hentries : (r.step b.environment w₁.machine).2.tables.entries =
      w₁.machine.tables.entries := by
    rw [hjoined, hm₁]
    rfl
  rcases leads_move hb hclients₁ (.goesOn rfl) hfree₁.spares
      (Machine.retains_of_entries_eq hentries) with
    ⟨w₂, h₂, hclients₂, hw₂, hprinted₂⟩
  change w₂.clients = w.clients ++
    [⟨.artifact ctx id, .requesting (r.step b.environment w₁.machine).1 next⟩] at hclients₂
  rw [hjoined] at hclients₂
  refine ⟨w₂, next, h₁.trans h₂, hclients₂, ?_, hprinted₂.trans hprinted₁, hplan⟩
  exact (congrArg Schedule.machine hw₂).trans (congrArg Prod.snd hjoined)

/-- A client that gets the artifact it has waited for returns it. -/
theorem leads_returned (hb : b ∈ backends) {before after : List (Client π)} {r : Request π}
    {next : Except Error (Resolved π) → Plan π (Reply π)} {found : Resolved π}
    (hclients : w.clients = before ++ ⟨.artifact ctx id, .requesting r next⟩ :: after)
    (hplan : (Call.artifact ctx id).plan b = .request ctx id next)
    (hresult : r.result? w.machine = some (.ok found)) :
    ∃ w' : World π, w.Retaining backends allowed w' ∧
      w'.clients = before ++
        ⟨.artifact ctx id, .returned (.ok (.artifact found.artifact.value))⟩ :: after ∧
      w'.machine = w.machine := by
  have hreply : next (.ok found) = .done (.ok (.artifact found.artifact.value)) := by
    cases hplan
    rfl
  rcases leads_move hb hclients (.hears hresult) (Machine.spares_of_flights_eq rfl)
      (Machine.retains_of_entries_eq rfl) with
    ⟨w₁, h₁, hclients₁, hw₁, _⟩
  rw [hreply] at hclients₁
  rcases leads_move hb hclients₁ .returns (Machine.spares_of_flights_eq rfl)
      (Machine.retains_of_entries_eq rfl) with
    ⟨w₂, h₂, hclients₂, hw₂, _⟩
  exact ⟨w₂, h₁.trans h₂, hclients₂, congrArg Schedule.machine (hw₂.trans hw₁)⟩

end

/-!
# Tasks
-/

/-- A task makes a step. -/
theorem leads_stage (hb : b ∈ backends) {k : Nat} {t : Task π}
    (ht : w.machine.tasks.get? k = some t) (s : TaskStage π) (m : Machine π)
    (htasks : m.tasks = w.machine.tasks)
    (hspares : w.machine.Spares (m.setStage k s)) (hretains : w.machine.Retains m)
    (hstep : Task.step b w.schedule.gateOpen k w.machine = some (m.setStage k s)) :
    ∃ w' : World π, w.Retaining backends allowed w' ∧ w'.clients = w.clients ∧
      w'.machine.tables = m.tables ∧ w'.machine.tasks.get? k = some { t with stage := s } ∧
      ∀ k' ≠ k, w'.machine.tasks.get? k' = w.machine.tasks.get? k' := by
  obtain ⟨s', hjob, hmachine, hbatches⟩ : ∃ s', w.schedule.stepJob b (.task k) = some s' ∧
      s'.machine = m.setStage k s ∧ s'.batches = w.schedule.batches := by
    simp only [Schedule.stepJob, hstep, Option.map_some]
    exact ⟨_, rfl, rfl, rfl⟩
  have hturn : w.Turn backends allowed { w with schedule := s' } := by
    refine .work hb (.job hjob) ?_
    simp only [machine, hmachine]
    exact hspares
  refine ⟨_, .single ⟨hturn, ?_, hbatches⟩, rfl, ?_, ?_, ?_⟩
  · simp only [machine, hmachine]
    exact hretains
  · simp only [machine, hmachine]
    rfl
  · simp only [machine, hmachine]
    exact Machine.get?_setStage_self (htasks ▸ ht) s
  · intro k' hk'
    simp only [machine, hmachine, Machine.get?_setStage, if_neg hk', htasks]

/-- A fresh task that has nothing to wait for comes as far as its call of the backend. -/
theorem leads_compiling (hb : b ∈ backends) {k : Nat} {t : Task π} {p : Project}
    (ht : w.machine.tasks.get? k = some t) (hfresh : t.stage = .fresh)
    (hp : t.context.workspace.project? t.project = some p)
    (hnone : t.context.graph.effectiveDependencies t.project = []) :
    ∃ w' : World π, w.Retaining backends allowed w' ∧ w'.clients = w.clients ∧
      w'.machine.tables = w.machine.tables.countCompile ∧
      w'.machine.tasks.get? k = some { t with stage := .compiling (.ofProject p []) } ∧
      ∀ k' ≠ k, w'.machine.tasks.get? k' = w.machine.tasks.get? k' := by
  rcases leads_stage hb ht (.gathering [] []) w.machine rfl
      (Machine.spares_of_flights_eq rfl) (Machine.retains_of_entries_eq rfl)
      (by simp only [Task.step, ht, hfresh, hp, hnone, Option.bind_eq_bind, Option.bind_some]) with
    ⟨w₁, h₁, hclients₁, htables₁, ht₁, hothers₁⟩
  rcases leads_stage hb ht₁ (.gathered []) w₁.machine rfl
      (Machine.spares_of_flights_eq rfl) (Machine.retains_of_entries_eq rfl)
      (by simp only [Task.step, ht₁, Option.bind_eq_bind, Option.bind_some]; rfl) with
    ⟨w₂, h₂, hclients₂, htables₂, ht₂, hothers₂⟩
  rcases leads_stage hb ht₂ (.counted []) (w₂.machine.updateTables .countCompile) rfl
      (Machine.spares_of_flights_eq rfl) (Machine.retains_of_entries_eq rfl)
      (by simp only [Task.step, ht₂, Option.bind_eq_bind, Option.bind_some]) with
    ⟨w₃, h₃, hclients₃, htables₃, ht₃, hothers₃⟩
  rcases leads_stage hb ht₃ (.compiling (.ofProject p []))
      (w₃.machine.recordCall (.ofProject p [])) rfl
      (Machine.spares_of_flights_eq rfl) (Machine.retains_of_entries_eq rfl)
      (by
        simp only [Task.step, ht₃, Option.bind_eq_bind, Option.bind_some, Task.unit, hp,
          Option.map_some, List.map_nil]) with
    ⟨w₄, h₄, hclients₄, htables₄, ht₄, hothers₄⟩
  refine ⟨w₄, ((h₁.trans h₂).trans h₃).trans h₄, ?_, ?_, ht₄, ?_⟩
  · rw [hclients₄, hclients₃, hclients₂, hclients₁]
  · rw [htables₄]
    change w₃.machine.tables = _
    rw [htables₃]
    change w₂.machine.tables.countCompile = _
    rw [htables₂, htables₁]
  · intro k' hk'
    rw [hothers₄ k' hk', hothers₃ k' hk', hothers₂ k' hk', hothers₁ k' hk']

/-- A task that has its flight stores what the backend has answered. -/
theorem leads_stored (hb : b ∈ backends) (hopen : w.schedule.gateOpen) {k : Nat} {t : Task π}
    {u : CompileUnit π} {a : Artifact π} {f : Fingerprint}
    (ht : w.machine.tasks.get? k = some t) (hstage : t.stage = .compiling u)
    (hcompiled : b.compile u = .compiled a)
    (hflight : w.machine.tables.flights.get? t.slot = some ⟨k, f⟩) :
    ∃ w' : World π, w.Retaining backends allowed w' ∧ w'.clients = w.clients ∧
      w'.machine.tables = (w.machine.tables.stamp a).2.store t.slot t.fingerprint
        (w.machine.tables.stamp a).1 ∧
      w'.machine.tasks.get? k =
        some { t with stage := .clearing (.ok (w.machine.tables.stamp a).1) } ∧
      ∀ k' ≠ k, w'.machine.tasks.get? k' = w.machine.tasks.get? k' := by
  let held := (w.machine.tables.stamp a).1
  rcases leads_stage hb ht (.landing (.ok held))
      { w.machine with tables := (w.machine.tables.stamp a).2 } rfl
      (Machine.spares_of_flights_eq rfl) (Machine.retains_of_entries_eq rfl)
      (by
        simp only [Task.step, ht, hstage, hopen, hcompiled, Task.conclude, Option.bind_eq_bind,
          Option.bind_some, if_true]
        rfl) with
    ⟨w₁, h₁, hclients₁, htables₁, ht₁, hothers₁⟩
  have hflight₁ : w₁.machine.tables.flights.get? t.slot = some ⟨k, f⟩ := by
    rw [htables₁]
    exact hflight
  rcases leads_stage hb ht₁ (.storing held) w₁.machine rfl
      (Machine.spares_of_flights_eq rfl) (Machine.retains_of_entries_eq rfl)
      (by
        simp only [Task.step, ht₁, Option.bind_eq_bind, Option.bind_some]
        rw [if_pos]
        change (w₁.machine.tables.flights.get? t.slot).any _
        rw [hflight₁]
        exact decide_eq_true rfl) with
    ⟨w₂, h₂, hclients₂, htables₂, ht₂, hothers₂⟩
  rcases leads_stage hb ht₂ (.clearing (.ok held))
      (w₂.machine.updateTables fun tables => tables.store t.slot t.fingerprint held) rfl
      (Machine.spares_of_flights_eq rfl) (Machine.retains_store _ _ _)
      (by simp only [Task.step, ht₂, Option.bind_eq_bind, Option.bind_some]; rfl) with
    ⟨w₃, h₃, hclients₃, htables₃, ht₃, hothers₃⟩
  refine ⟨w₃, (h₁.trans h₂).trans h₃, ?_, ?_, ht₃, ?_⟩
  · rw [hclients₃, hclients₂, hclients₁]
  · rw [htables₃]
    change w₂.machine.tables.store _ _ _ = _
    rw [htables₂, htables₁]
  · intro k' hk'
    rw [hothers₃ k' hk', hothers₂ k' hk', hothers₁ k' hk']

/-- A task that has stored its artifact takes its flight out and announces the outcome. -/
theorem leads_announced (hb : b ∈ backends) (horderly : w.machine.Orderly) {k : Nat}
    {t : Task π} {o : Outcome π} (ht : w.machine.tasks.get? k = some t)
    (hstage : t.stage = .clearing o) :
    ∃ w' : World π, w.Retaining backends allowed w' ∧ w'.clients = w.clients ∧
      w'.machine.tasks.get? k = some { t with stage := .announced o } := by
  have hholding : t.stage.isHolding := by
    rw [hstage]
    rfl
  rcases leads_stage hb ht (.announcing o)
      (w.machine.updateTables fun tables => tables.dropFlight t.slot) rfl
      (horderly.spares_dropFlight ht hholding) (Machine.retains_of_entries_eq rfl)
      (by simp only [Task.step, ht, hstage, Option.bind_eq_bind, Option.bind_some]) with
    ⟨w₁, h₁, hclients₁, _, ht₁, _⟩
  rcases leads_stage hb ht₁ (.announced o) w₁.machine rfl
      (Machine.spares_of_flights_eq rfl) (Machine.retains_of_entries_eq rfl)
      (by simp only [Task.step, ht₁, Option.bind_eq_bind, Option.bind_some]) with
    ⟨w₂, h₂, hclients₂, _, ht₂, _⟩
  exact ⟨w₂, h₁.trans h₂, hclients₂.trans hclients₁, ht₂⟩

/-!
# The single project
-/

/-- The fingerprint of the single project with a text. -/
def loneFingerprint (text : String) : Fingerprint :=
  (loneProject text).fingerprint "" []

theorem effectiveDependencies_lone (text : String) (id : ProjectId) :
    (lone text).graph.effectiveDependencies id = [] :=
  Graph.effectiveDependencies_build (by simp [loneWorkspace, loneProject]) id

theorem print_lone (text : String) :
    (lone text).print "" ⟨"a"⟩ = .ok (loneFingerprint text) := by
  rw [Context.print_eq, effectiveDependencies_lone]
  rfl

end World
end Cache
end Ripple
