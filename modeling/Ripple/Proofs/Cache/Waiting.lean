import Ripple.Proofs.Cache.Asking
import Ripple.Proofs.Cache.Sharing

/-!
# Waiting

A request waits for a task that was there for its slot and its fingerprint when it
began to wait, and the task goes on even if its flight is taken over or removed. As long
as no two streams that have been hashed collide, fingerprints tell how deep a project is,
so a task waits only for tasks of projects less deep than its own, be they in other
contexts. So nothing waits in a circle, and something can always go on.
-/

namespace Ripple
namespace Cache

variable {π : Type}

/-!
# What requests wait for
-/

/-- The fingerprint that a request goes by, once it is known. -/
def RequestStage.fingerprint? : RequestStage π → Option Fingerprint
  | .missed f | .joining f | .waiting f _ => some f
  | .found r | .settled (.ok r) => some r.fingerprint
  | .fresh | .settled (.error _) => none

/-- The fingerprint is that of the project for one of the backends. -/
def Printed (backends : Set (Backend π)) (f : Fingerprint) (ctx : Context) (id : ProjectId) :
    Prop :=
  ∃ b ∈ backends, ctx.print b.environment id = .ok f

namespace Request

/-- The task that a request waits for is there for the same slot and fingerprint. -/
def Awaits (r : Request π) (m : Machine π) : Prop :=
  ∀ ⦃f k⦄, r.stage = .waiting f k → ∃ t, m.tasks.get? k = some t ∧ t.slot = r.slot ∧
    t.fingerprint = f

theorem Awaits.keeps {r : Request π} {m m' : Machine π} (h : r.Awaits m)
    (hkeeps : m.Keeps m') : r.Awaits m' := by
  intro f k hstage
  rcases h hstage with ⟨t, ht, hslot, hf⟩
  rcases hkeeps ht with ⟨t', ht', hctx, hid, hf'⟩
  refine ⟨t', ht', ?_, hf'.trans hf⟩
  rw [← hslot, Task.slot, Task.slot, hctx, hid]

theorem awaits_of_moves {environment : String} {r r' : Request π} {m m' : Machine π}
    (h : m.Orderly) (hmove : r.Moves environment m (r', m')) : r'.Awaits m' := by
  intro f k hstage'
  generalize hnext : (r', m') = next at hmove
  cases hmove with
  | joined hstage hflight =>
      cases hnext
      cases hstage'
      rcases h.flights hflight with ⟨t, ht, hslot, hf, _⟩
      exact ⟨t, ht, hslot, hf⟩
  | tookOff hstage hlook hother =>
      cases hnext
      cases hstage'
      exact ⟨_, Table.get?_insert_self .., rfl, rfl⟩
  | _ =>
      cases hnext
      cases hstage'

theorem printed_of_moves {backends : Set (Backend π)} {b : Backend π} (hb : b ∈ backends)
    {r r' : Request π} {m m' : Machine π}
    (h : ∀ f, r.stage.fingerprint? = some f → Printed backends f r.context r.project)
    (hmove : r.Moves b.environment m (r', m')) :
    ∀ f, r'.stage.fingerprint? = some f → Printed backends f r'.context r'.project := by
  intro f hf
  have hsame {g : Fingerprint} (hg : r.stage.fingerprint? = some g)
      (hfg : some g = some f) : Printed backends f r.context r.project := by
    cases hfg
    exact h _ hg
  generalize hnext : (r', m') = next at hmove
  cases hmove with
  | refused hstage hprint =>
      cases hnext
      cases hf
  | found hstage hprint hlook =>
      cases hnext
      cases hf
      exact ⟨b, hb, r.context.fingerprint_eq_print _ _ ▸ hprint⟩
  | missed hstage hprint hlook =>
      cases hnext
      cases hf
      exact ⟨b, hb, r.context.fingerprint_eq_print _ _ ▸ hprint⟩
  | hit hstage =>
      cases hnext
      exact hsame (congrArg RequestStage.fingerprint? hstage) hf
  | miss hstage =>
      cases hnext
      exact hsame (congrArg RequestStage.fingerprint? hstage) hf
  | joined hstage hflight =>
      cases hnext
      exact hsame (congrArg RequestStage.fingerprint? hstage) hf
  | stored hstage hlook =>
      cases hnext
      exact hsame (congrArg RequestStage.fingerprint? hstage) hf
  | tookOff hstage hlook hother =>
      cases hnext
      exact hsame (congrArg RequestStage.fingerprint? hstage) hf

end Request

namespace World

/-- Fingerprints are those of the projects, requests wait for tasks that are there, and of
the requests of a task only the last one is still on its way. -/
structure Traced (backends : Set (Backend π)) (w : World π) : Prop where
  tasks : ∀ {k t}, w.machine.tasks.get? k = some t →
    Printed backends t.fingerprint t.context t.project
  requests : ∀ {a r}, w.Asks a r →
    ∀ f, r.stage.fingerprint? = some f → Printed backends f r.context r.project
  awaited : ∀ {a r}, w.Asks a r → r.Awaits w.machine
  passive : ∀ {k t asked left}, w.machine.tasks.get? k = some t →
    t.stage = .gathering asked left → ∀ r ∈ asked.dropLast, ¬ r.isActive

theorem traced_start (backends : Set (Backend π)) (settings : CacheSettings) :
    (start settings : World π).Traced backends := by
  have hnone {a : Asker} {r : Request π} (hr : (start settings : World π).Asks a r) : False := by
    cases hr with
    | client hc hstage => cases hc
    | batch hbatch hr => cases hbatch
    | task ht hstage hr => cases ht
  exact ⟨nofun, fun hr => (hnone hr).elim, fun hr => (hnone hr).elim, nofun⟩

variable {backends : Set (Backend π)} {allowed : Set Upkeep} {settings : CacheSettings}
  {w w' : World π} {b : Backend π}

theorem Traced.turn (h : w.Traced backends) (horderly : w.machine.Orderly)
    (hturn : w.Turn backends allowed w') : w'.Traced backends := by
  have hkeeps := (formed_of_turn horderly.formed hturn).right
  constructor
  · intro k t' ht'
    cases task_of_turn horderly.formed hturn ht' with
    | stays ht => exact h.tasks ht
    | moved hb ht hmove heq =>
        subst heq
        have hprinted := h.tasks ht
        exact hprinted
    | tookOff hr hjoining heq =>
        subst heq
        exact h.requests hr _ (congrArg RequestStage.fingerprint? hjoining)
  · intro a r' hr'
    cases comes_of_turn horderly.formed hturn hr' with
    | stays hr => exact h.requests hr
    | made hstage horigin =>
        intro f hf
        rw [hstage] at hf
        cases hf
    | moved hb hr hprinted hmove hm => exact Request.printed_of_moves hb (h.requests hr) hmove
  · intro a r' hr'
    cases comes_of_turn horderly.formed hturn hr' with
    | stays hr => exact (h.awaited hr).keeps hkeeps
    | made hstage horigin =>
        intro f k hwaiting
        rw [hstage] at hwaiting
        cases hwaiting
    | moved hb hr hprinted hmove hm => exact (Request.awaits_of_moves horderly hmove).keeps hm
  · intro k t' asked left ht' hstage'
    cases task_of_turn horderly.formed hturn ht' with
    | stays ht => exact h.passive ht hstage'
    | moved hb ht hmove heq =>
        subst heq
        cases Task.gathering_of_moves horderly.formed ht hmove ht' hstage' with
        | entered hstage => exact nofun
        | stepped hstage hrequest hm =>
            have hpassive := h.passive ht hstage
            rw [List.dropLast_concat] at hpassive ⊢
            exact hpassive
        | @asked before id _ hstage hlast =>
            rw [List.dropLast_concat]
            exact not_active_of_last (h.passive ht hstage) hlast
    | tookOff hr hjoining heq =>
        subst heq
        cases hstage'

theorem traced_of_attained (h : w.Attained backends allowed settings) : w.Traced backends := by
  induction h with
  | refl => exact traced_start backends settings
  | tail hreach hturn ih => exact ih.turn (orderly_of_attained hreach) hturn

/-!
# How deep tasks are

Whatever environments the backends are in, equal fingerprints stand for projects that are
equally deep.
-/

/-- What has been hashed for the projects that have been asked for. -/
def streams (backends : Set (Backend π)) (w : World π) : Set (List UInt8) :=
  { stream | ∃ b ∈ backends, ∃ row ∈ w.printed, row.1.Hashes b.environment row.2 stream }

/-- Nothing that has been hashed for projects collides, and all lengths fit into words. -/
structure Distinct (backends : Set (Backend π)) (w : World π) : Prop where
  injective : (w.streams backends).InjOn Fingerprint.ofStream
  environments : ∀ b ∈ backends, TextFits b.environment
  contexts : ∀ row ∈ w.printed, row.1.Fits

theorem Distinct.covered (h : w.Distinct backends) (hb : b ∈ backends) {ctx : Context}
    {id : ProjectId} (hwanted : w.Wanted ctx id) :
    ctx.Covered b.environment (w.streams backends) id := by
  induction hwanted with
  | printed hrow => exact ⟨h.contexts _ hrow, fun s hs => ⟨b, hb, _, hrow, hs⟩⟩
  | dependency _ hc ih => exact ih.below hc

theorem Distinct.depth_eq (h : w.Distinct backends) {f : Fingerprint} {ctx ctx' : Context}
    {id id' : ProjectId} (hwanted : w.Wanted ctx id) (hwanted' : w.Wanted ctx' id')
    (hf : Printed backends f ctx id) (hf' : Printed backends f ctx' id') :
    ctx.depth id = ctx'.depth id' := by
  rcases hf with ⟨b, hb, hprint⟩
  rcases hf' with ⟨b', hb', hprint'⟩
  have hcov := h.covered hb hwanted
  have hcov' := h.covered hb' hwanted'
  have henv : b.environment = b'.environment :=
    (Context.inputs_eq_of_print_eq h.injective (h.environments b hb) (h.environments b' hb')
      hcov hcov' hprint hprint').left
  rw [← henv] at hcov' hprint'
  exact (Context.fold_eq_of_print_eq h.injective (h.environments b hb) hcov hcov' hprint
    hprint').right _

/-- Tasks wait only for tasks of projects that are less deep. -/
def Descends (w : World π) : Prop :=
  ∀ ⦃k t k'⦄, w.machine.tasks.get? k = some t → t.stage.waitsFor k' →
    ∃ t', w.machine.tasks.get? k' = some t' ∧
      t'.context.depth t'.project < t.context.depth t.project

/-- A task that waits has a request for one of its dependencies, and the task that it waits
for is for this project in the same session. -/
theorem Traced.of_waitsFor (h : w.Traced backends) (htidy : w.Tidy) {k k' : Nat} {t : Task π}
    (ht : w.machine.tasks.get? k = some t) (hwaits : t.stage.waitsFor k') :
    ∃ r f t', w.Asks (.task k) r ∧ r.stage = .waiting f k' ∧
      (r.context = t.context ∧ r.project ∈ t.context.graph.effectiveDependencies t.project) ∧
        w.machine.tasks.get? k' = some t' ∧ t'.slot = r.slot ∧ t'.fingerprint = f := by
  rcases TaskStage.waitsFor_iff.mp hwaits with ⟨asked, left, hstage, r, hr, f, hwaiting⟩
  have hasks : w.Asks (.task k) r := .task ht hstage hr
  rcases h.awaited hasks hwaiting with ⟨t', ht', hslot, hf⟩
  exact ⟨r, f, t', hasks, hwaiting, htidy.requests hasks ht, ht', hslot, hf⟩

theorem Distinct.descends (h : w.Distinct backends) (htidy : w.Tidy)
    (htraced : w.Traced backends) : w.Descends := by
  intro k t k' ht hwaits
  rcases htraced.of_waitsFor htidy ht hwaits with
    ⟨r, f, t', hasks, hwaiting, ⟨hctx, hdep⟩, ht', _, hf⟩
  have hprinted := htraced.requests hasks f (congrArg RequestStage.fingerprint? hwaiting)
  have heq : t'.context.depth t'.project = r.context.depth r.project :=
    h.depth_eq (htidy.tasks ht') (htidy.wanted hasks nofun) (hf ▸ htraced.tasks ht') hprinted
  refine ⟨t', ht', ?_⟩
  rw [heq, hctx]
  exact Context.depth_lt hdep

/-- The first task waits for the second one. -/
def WaitsFor (w : World π) (k k' : Nat) : Prop :=
  ∃ t, w.machine.tasks.get? k = some t ∧ t.stage.waitsFor k'

theorem Descends.acyclic (h : w.Descends) (k : Nat) : ¬ Relation.TransGen w.WaitsFor k k := by
  have hlt {k k' : Nat} (hpath : Relation.TransGen w.WaitsFor k k') :
      ∃ t t', w.machine.tasks.get? k = some t ∧ w.machine.tasks.get? k' = some t' ∧
        t'.context.depth t'.project < t.context.depth t.project := by
    induction hpath with
    | single hwaits =>
        rcases hwaits with ⟨t, ht, hwaits⟩
        rcases h ht hwaits with ⟨t', ht', hdepth⟩
        exact ⟨t, t', ht, ht', hdepth⟩
    | tail _ hwaits ih =>
        rcases ih with ⟨t, t', ht, ht', hdepth⟩
        rcases hwaits with ⟨t₁, ht₁, hwaits⟩
        rw [ht'] at ht₁
        cases ht₁
        rcases h ht' hwaits with ⟨t'', ht'', hdepth'⟩
        exact ⟨t, t'', ht, ht'', Nat.lt_trans hdepth' hdepth⟩
  intro hpath
  rcases hlt hpath with ⟨t, t', ht, ht', hdepth⟩
  rw [ht] at ht'
  cases ht'
  exact absurd hdepth (Nat.lt_irrefl _)

/-!
# Something can go on
-/

/-- A task that can go no further has ended, as those that it waits for have. -/
theorem ended_of_stuck (hdescends : w.Descends) (htraced : w.Traced backends)
    (hopen : w.schedule.gateOpen = true) (hstuck : ∀ w', ¬ w.Work b w') {k : Nat} {t : Task π}
    (ht : w.machine.tasks.get? k = some t) : ∃ o, t.stage = .ended o := by
  induction hdepth : t.context.depth t.project using Nat.strong_induction_on
    generalizing k t with
  | h n ih =>
      cases waits_of_stuck hopen hstuck ht with
      | ended hstage => exact ⟨_, hstage⟩
      | compiling hstage hclosed => cases hclosed
      | @gathering asked hstage hlast hgathered =>
          exfalso
          rcases Schedule.exists_unknown hgathered with ⟨r, hr, hunknown⟩
          have hpassive := not_active_of_last (htraced.passive ht hstage) hlast r hr
          rcases Schedule.waiting_of_unknown hpassive hunknown with ⟨f, k', hwaiting, hnone⟩
          have hwaits : t.stage.waitsFor k' :=
            TaskStage.waitsFor_iff.mpr ⟨asked, [], hstage, r, hr, f, hwaiting⟩
          rcases hdescends ht hwaits with ⟨t', ht', hlt⟩
          rcases ih _ (hdepth ▸ hlt) ht' rfl with ⟨o, ho⟩
          simp [Machine.outcome?, ht', ho, TaskStage.outcome?] at hnone

/-- A request that waits for a task that has ended has its result. -/
theorem result?_isSome_of_awaits {r : Request π} {m : Machine π} (h : r.Awaits m)
    (hpassive : ¬ r.isActive)
    (hended : ∀ {k t}, m.tasks.get? k = some t → ∃ o, t.stage = .ended o) :
    (r.result? m).isSome := by
  by_contra hunknown
  rw [Option.not_isSome_iff_eq_none] at hunknown
  rcases Schedule.waiting_of_unknown hpassive hunknown with ⟨f, k, hwaiting, hnone⟩
  rcases h hwaiting with ⟨t, ht, _⟩
  rcases hended ht with ⟨o, ho⟩
  simp [Machine.outcome?, ht, ho, TaskStage.outcome?] at hnone

theorem not_active_of_stuck (hstuck : ∀ w', ¬ w.Work b w')
    (hended : ∀ {k t}, w.machine.tasks.get? k = some t → ∃ o, t.stage = .ended o) {a : Asker}
    {r : Request π} (hr : w.Asks a r) : ¬ r.isActive := by
  intro hactive
  cases hr with
  | @client c _ next hc hstage =>
      rcases List.append_of_mem hc with ⟨before, after, hclients⟩
      obtain ⟨stage, s, hmove⟩ : ∃ stage s, c.stage.Moves b w.schedule stage s := by
        rw [hstage]
        exact ⟨_, _, .goesOn hactive⟩
      exact hstuck _ (.client hclients hmove)
  | @batch number requests _ hbatch hr =>
      have hstep := (Schedule.stepJob_batch_isSome_iff (b := b)).mpr
        ⟨requests, hbatch, r, hr, hactive⟩
      rcases Option.isSome_iff_exists.mp hstep with ⟨s, hs⟩
      exact hstuck _ (.job hs)
  | task ht hstage hr =>
      rcases hended ht with ⟨o, ho⟩
      rw [hstage] at ho
      cases ho

/-- Some client, request or task has not come to its end. -/
inductive Unfinished (w : World π) : Prop where
  | client {c : Client π} (hc : c ∈ w.clients) (hin : ¬ c.stage.isOut) : Unfinished w
  | request {a : Asker} {r : Request π} (hr : w.Asks a r)
      (hunknown : r.result? w.machine = none) : Unfinished w
  | task {k : Nat} {t : Task π} (ht : w.machine.tasks.get? k = some t)
      (hgoing : ¬ t.stage.isEnded) : Unfinished w

theorem exists_work (hdescends : w.Descends) (htraced : w.Traced backends)
    (hopen : w.schedule.gateOpen = true) (b : Backend π) (h : w.Unfinished) :
    ∃ w', w.Work b w' := by
  by_contra hnone
  have hstuck := not_exists.mp hnone
  have hended {k : Nat} {t : Task π} (ht : w.machine.tasks.get? k = some t) :
      ∃ o, t.stage = .ended o :=
    ended_of_stuck hdescends htraced hopen hstuck ht
  cases h with
  | @client c hc hin =>
      rcases List.append_of_mem hc with ⟨before, after, hclients⟩
      apply hin
      refine isOut_of_not_moves (fun _ _ hmove => hstuck _ (.client hclients hmove)) ?_
      intro r next hstage hpassive
      exact result?_isSome_of_awaits (htraced.awaited (.client hc hstage)) hpassive hended
  | @request a r hr hunknown =>
      have hpassive := not_active_of_stuck hstuck hended hr
      have hsome := result?_isSome_of_awaits (htraced.awaited hr) hpassive hended
      rw [hunknown] at hsome
      cases hsome
  | task ht hgoing =>
      rcases hended ht with ⟨o, ho⟩
      apply hgoing
      rw [ho]
      rfl

/-- A task that holds its slot can go on, and spares all other slots that are held. -/
theorem exists_work_of_holding (horderly : w.machine.Orderly) (b : Backend π) {k : Nat}
    {t : Task π} (ht : w.machine.tasks.get? k = some t) (hholding : t.stage.isHolding) :
    ∃ w', w.Work b w' ∧ w.machine.Spares w'.machine := by
  have hgo {m : Machine π} (hstep : Task.step b w.schedule.gateOpen k w.machine = some m)
      (hspares : w.machine.Spares m) : ∃ w', w.Work b w' ∧ w.machine.Spares w'.machine := by
    obtain ⟨s, hjob, hmachine⟩ : ∃ s, w.schedule.stepJob b (.task k) = some s ∧
        s.machine = m := by
      simp only [Schedule.stepJob, hstep, Option.map_some]
      exact ⟨_, rfl, rfl⟩
    refine ⟨_, .job hjob, ?_⟩
    simp only [machine, hmachine]
    exact hspares
  cases hstage : t.stage with
  | storing a =>
      let m := w.machine.updateTables fun tables => tables.store t.slot t.fingerprint a
      refine hgo (m := m.setStage k (.clearing (.ok a))) ?_ (Machine.spares_of_flights_eq rfl)
      simp only [Task.step, ht, hstage, Option.bind_eq_bind, Option.bind_some]
      rfl
  | clearing o =>
      refine hgo ?_ (horderly.spares_dropFlight (o := o) ht hholding)
      simp only [Task.step, ht, hstage, Option.bind_eq_bind, Option.bind_some]
  | _ =>
      rw [hstage] at hholding
      cases hholding

/-- Whatever is unfinished, something can go on without a slot being touched that another
task holds. -/
theorem exists_work_sparing (horderly : w.machine.Orderly) (hdescends : w.Descends)
    (htraced : w.Traced backends) (hopen : w.schedule.gateOpen = true) (b : Backend π)
    (h : w.Unfinished) : ∃ w', w.Work b w' ∧ w.machine.Spares w'.machine := by
  by_cases hfree : w.machine.Free
  · rcases exists_work hdescends htraced hopen b h with ⟨w', hwork⟩
    exact ⟨w', hwork, hfree.spares⟩
  · unfold Machine.Free at hfree
    push Not at hfree
    rcases hfree with ⟨k, t, ht, hholding⟩
    exact exists_work_of_holding horderly b ht hholding

end World

/-!
# After a failure
-/

/-- A request that nothing is stored or under way for gets a compile off. -/
theorem Request.advance_eq_takeOff {environment : String} {ctx : Context} {id : ProjectId}
    {f : Fingerprint} {m : Machine π} (hprint : ctx.print environment id = .ok f)
    (hlook : ∀ a, m.tables.stored? ⟨ctx.session, id⟩ ≠ some (f, a))
    (hother : ∀ flight, m.tables.flights.get? ⟨ctx.session, id⟩ = some flight →
      flight.fingerprint ≠ f) :
    (Request.of ctx id).advance environment m =
      (Request.of ctx id).takeOff f (m.updateTables .countMiss) := by
  let r (stage : RequestStage π) : Request π := ⟨ctx, id, stage⟩
  have hmissed : (r .fresh).step environment m = (r (.missed f), m) := by
    simp only [r, Request.step, Request.lookUp, Context.fingerprint_eq_print, hprint,
      Request.slot, Tables.lookUp_eq_none_iff.mpr hlook]
  have hjoined : (r (.joining f)).step environment (m.updateTables .countMiss) =
      (Request.of ctx id).takeOff f (m.updateTables .countMiss) :=
    Request.join_eq_takeOff hlook hother
  have hadvance : (Request.of ctx id).advance environment m =
      ((((r .fresh).step environment m).1.step environment
        ((r .fresh).step environment m).2).1.step environment
          (((r .fresh).step environment m).1.step environment
            ((r .fresh).step environment m).2).2) := rfl
  rw [hadvance, hmissed]
  exact hjoined

namespace Machine

variable {m : Machine π} {k : Nat} {t : Task π} {e : Error}

/-- The last task for its slot and fingerprint, if it has failed, leaves nothing there. -/
theorem Orderly.nothing_left (h : m.Orderly) (ht : m.tasks.get? k = some t)
    (hfailed : t.stage.settled? = some (.error e)) (hover : ¬ t.stage.isRunning)
    (hlatest : ∀ {k' t'}, m.tasks.get? k' = some t' → t'.slot = t.slot →
      t'.fingerprint = t.fingerprint → k' ≤ k) :
    (∀ a, m.tables.stored? t.slot ≠ some (t.fingerprint, a)) ∧
      ∀ flight, m.tables.flights.get? t.slot = some flight →
        flight.fingerprint ≠ t.fingerprint := by
  constructor
  · intro a hstored
    have hsettled := h.stored_of_latest ht hlatest hstored
    rw [hfailed] at hsettled
    cases hsettled
  · intro flight hflight hf
    rcases h.flights hflight with ⟨t', ht', hslot', hf', _⟩
    have hle : flight.ticket ≤ k := hlatest ht' hslot' (hf'.trans hf)
    have hge : k ≤ flight.ticket := h.latest hflight ht rfl
    exact h.ticket_ne ht hover hflight (Nat.le_antisymm hle hge)

end Machine

/-!
# No slot is wedged
-/

namespace World

/-- Nothing waits for what does not come. -/
structure Live (backends : Set (Backend π)) (w : World π) : Prop where
  /-- No two tasks have one ticket. -/
  tickets : w.machine.tasks.keys.Nodup
  /-- A flight is that of a task that is under way, with its ticket. -/
  flights : ∀ {slot flight}, w.machine.tables.flights.get? slot = some flight →
    ∃ t, w.machine.tasks.get? flight.ticket = some t ∧ t.slot = slot ∧
      t.fingerprint = flight.fingerprint ∧ t.stage.isRunning
  /-- Who waits waits for a task for its slot and fingerprint, and this task has not
  ended or the result is known. -/
  waiting : ∀ {a r f k}, w.Asks a r → r.stage = .waiting f k →
    ∃ t, w.machine.tasks.get? k = some t ∧ t.slot = r.slot ∧ t.fingerprint = f ∧
      (¬ t.stage.isEnded ∨ (r.result? w.machine).isSome)
  acyclic : ∀ k, ¬ Relation.TransGen w.WaitsFor k k
  /-- While something is unfinished a client or a job can go on. -/
  progress : w.Unfinished → ∀ b ∈ backends, ∃ w', w.Work b w' ∧ w.machine.Spares w'.machine
  /-- Only compiles that succeed leave entries. -/
  entries : ∀ {slot f a}, w.machine.tables.stored? slot = some (f, a) →
    ∃ k t, w.machine.tasks.get? k = some t ∧ t.slot = slot ∧ t.fingerprint = f ∧
      t.stage.settled? = some (.ok a)
  /-- One that has failed has no flight any more, and the next request gets another off. -/
  failed : ∀ {k t e}, w.machine.tasks.get? k = some t → t.stage.settled? = some (.error e) →
    ¬ t.stage.isRunning →
      (∀ {slot flight}, w.machine.tables.flights.get? slot = some flight →
        flight.ticket ≠ k) ∧
      ((∀ {k' t'}, w.machine.tasks.get? k' = some t' → t'.slot = t.slot →
          t'.fingerprint = t.fingerprint → k' ≤ k) →
        ∀ environment ctx, ctx.session = t.context.session →
          ctx.print environment t.project = .ok t.fingerprint →
            (Request.of ctx t.project).advance environment w.machine =
              (Request.of ctx t.project).takeOff t.fingerprint
                (w.machine.updateTables .countMiss))

variable {backends : Set (Backend π)} {settings : CacheSettings} {w : World π}

/-- Whatever is done with the cache, and however compiles end, nothing is wedged as long
as no fingerprints collide. -/
theorem live_of_attained (h : w.Attained backends Set.univ settings)
    (hdistinct : w.Distinct backends) : w.Live backends := by
  have horderly := orderly_of_attained h
  have htraced := traced_of_attained h
  have hdescends := hdistinct.descends (tidy_of_attained h) htraced
  constructor
  · exact horderly.formed.nodup
  · exact horderly.flights
  · intro a r f k hr hwaiting
    rcases htraced.awaited hr hwaiting with ⟨t, ht, hslot, hf⟩
    refine ⟨t, ht, hslot, hf, ?_⟩
    cases hstage : t.stage with
    | ended o =>
        right
        simp [Request.result?, hwaiting, Machine.outcome?, ht, hstage, TaskStage.outcome?]
    | _ => exact .inl Bool.false_ne_true
  · exact hdescends.acyclic
  · intro hunfinished b hb
    have hopen : w.schedule.gateOpen = true := gateOpen_of_leads h
    exact exists_work_sparing horderly hdescends htraced hopen b hunfinished
  · intro slot f a hstored
    rcases horderly.entries hstored with ⟨k, t, ht, hslot, hf, ho, _⟩
    exact ⟨k, t, ht, hslot, hf, ho⟩
  · intro k t e ht hfailed hover
    constructor
    · exact horderly.ticket_ne ht hover
    · intro hlatest environment ctx hsession hprint
      have hslot : (⟨ctx.session, t.project⟩ : Slot) = t.slot := by
        rw [hsession]
        rfl
      rcases horderly.nothing_left ht hfailed hover hlatest with ⟨hlook, hother⟩
      apply Request.advance_eq_takeOff hprint
      · rw [hslot]
        exact hlook
      · rw [hslot]
        exact hother

/-- After the old text, the new one and the old one again have been asked for, the first
client still waits for a task that goes on, though its flight has been taken over. -/
theorem live_of_attained_lone : ∃ (w : World (List Document)) (r : Request (List Document))
    (t : Task (List Document)), w.Live {echo} ∧ w.Asks .client r ∧
      r.stage = .waiting (loneFingerprint "old") 0 ∧ w.machine.tasks.get? 0 = some t ∧
      t.stage.isRunning ∧ (∀ flight, w.machine.tables.flights.get? t.slot = some flight →
        flight.ticket ≠ 0) ∧
      ∃ w', w.Work echo w' ∧ w.machine.Spares w'.machine := by
  rcases attained_old_again Set.univ with
    ⟨w, next, next', next'', h, hclients, hprinted, hflight, ht, _⟩
  have hrows {row : Context × ProjectId} (hrow : row ∈ w.printed) :
      row.1 = lone "old" ∨ row.1 = lone "new" := by
    rw [hprinted] at hrow
    simp only [List.mem_cons, List.not_mem_nil, or_false] at hrow
    rcases hrow with rfl | rfl | rfl
    · exact .inl rfl
    · exact .inr rfl
    · exact .inl rfl
  have hstreams {stream : List UInt8} (hstream : stream ∈ w.streams {echo}) :
      stream = Stream.ofProject (loneProject "old") "" [] ∨
        stream = Stream.ofProject (loneProject "new") "" [] := by
    rcases hstream with ⟨b, rfl, row, hrow, hhashes⟩
    rcases hrows hrow with hctx | hctx
    · rw [hctx] at hhashes
      exact .inl (hashes_lone hhashes)
    · rw [hctx] at hhashes
      exact .inr (hashes_lone hhashes)
  have hdistinct : w.Distinct {echo} := by
    constructor
    · intro stream hs stream' hs' heq
      rcases hstreams hs with rfl | rfl
      · rcases hstreams hs' with rfl | rfl
        · rfl
        · exact absurd heq.symm loneFingerprint_ne
      · rcases hstreams hs' with rfl | rfl
        · exact absurd heq loneFingerprint_ne
        · rfl
    · rintro b rfl
      unfold TextFits
      decide
    · intro row hrow
      rcases hrows hrow with hctx | hctx
      · rw [hctx]
        exact fits_lone fits_old
      · rw [hctx]
        refine fits_lone ?_
        unfold TextFits
        decide
  have hlive := live_of_attained h hdistinct
  have hc : ⟨_, .requesting _ next⟩ ∈ w.clients := hclients ▸ List.mem_cons_self
  refine ⟨w, _, _, hlive, .client hc rfl, rfl, ht, rfl, ?_, ?_⟩
  · intro flight hflight'
    have hsome := hflight.symm.trans hflight'
    cases hsome
    decide
  · exact hlive.progress (.client hc Bool.false_ne_true) echo rfl

end World
end Cache
end Ripple
