import Ripple.Proofs.Cache.Callers
import Ripple.Proofs.Cache.Speculation

/-!
# Restraint

What is under way in a world may be restrained: whatever comes back to it, it asks for
artifacts of some sessions only, and files listings of some sessions only. It stays so
as long as nobody makes a new call, and then tasks take off for the first sessions only.
-/

namespace Ripple
namespace Cache

variable {π α β : Type} {asks files : SessionId → Prop}

/-!
# Plans
-/

namespace Plan

/-- All requests are for sessions of the first kind, and all listings that are filed for
those of the second. -/
def KeepsTo (asks files : SessionId → Prop) : Plan π α → Prop
  | .done _ => True
  | .request ctx _ next => asks ctx.session ∧ ∀ result, (next result).KeepsTo asks files
  | .compile _ next => ∀ result, (next result).KeepsTo asks files
  | .consult _ next => ∀ found, (next found).KeepsTo asks files
  | .file key _ _ next => files key.slot.session ∧ ∀ held, (next held).KeepsTo asks files

theorem keepsTo_bind {plan : Plan π α} {k : α → Plan π β} (h : plan.KeepsTo asks files)
    (hk : ∀ a, (k a).KeepsTo asks files) : (plan.bind k).KeepsTo asks files := by
  induction plan with
  | done a => exact hk a
  | request ctx id next ih => exact ⟨h.left, fun result => ih result (h.right result)⟩
  | compile u next ih => exact fun result => ih result (h result)
  | consult key next ih => exact fun found => ih found (h found)
  | file key f ds next ih => exact ⟨h.left, fun held => ih held (h.right held)⟩

/-- A plan that comes to nothing ends there. -/
theorem keepsTo_attempt_bind {plan : Attempt π α} {k : α → Attempt π β}
    (h : KeepsTo asks files plan.run) (hk : ∀ a, KeepsTo asks files (k a).run) :
    KeepsTo asks files (plan >>= k).run := by
  refine keepsTo_bind h fun result => ?_
  cases result with
  | ok a => exact hk a
  | error e => exact trivial

section

variable {ctx : Context} (hasks : asks ctx.session)

include hasks

theorem keepsTo_getOrCreate (id : ProjectId) :
    KeepsTo asks files (getOrCreate (π := π) ctx id).run :=
  keepsTo_attempt_bind ⟨hasks, fun _ => trivial⟩ fun _ => trivial

theorem keepsTo_references (built : Built π) (ids : List ProjectId) :
    KeepsTo asks files (references ctx built ids).run := by
  induction ids with
  | nil => exact trivial
  | cons id ids ih =>
      have hrest (a : Held (Artifact π)) : KeepsTo asks files
          (do
            let more ← references ctx built ids
            pure (a :: more) : Attempt π (List (Held (Artifact π)))).run :=
        keepsTo_attempt_bind ih fun _ => trivial
      unfold references
      cases built.get? id with
      | some a => exact hrest a
      | none => exact keepsTo_attempt_bind (keepsTo_getOrCreate hasks id) hrest

theorem keepsTo_rebuild (overrides : Overrides) (built : Built π) (ids : List ProjectId) :
    KeepsTo asks files (rebuild ctx overrides built ids).run := by
  induction ids generalizing built with
  | nil => exact trivial
  | cons id ids ih =>
      unfold rebuild
      cases ctx.workspace.project? id with
      | none => exact trivial
      | some p =>
          refine keepsTo_attempt_bind (keepsTo_references hasks built _) fun found => ?_
          refine keepsTo_attempt_bind (fun result => ?_) fun a => ih _
          cases result <;> exact trivial

theorem keepsTo_speculate (id : ProjectId) (overrides : Overrides) :
    KeepsTo asks files (speculate (π := π) ctx id overrides).run := by
  unfold speculate
  cases ctx.workspace.project? id with
  | none => exact trivial
  | some p =>
      by_cases hreached : id ∈ reached ctx overrides
      · simp only [if_pos hreached]
        refine keepsTo_attempt_bind (keepsTo_rebuild hasks overrides _ _) fun built => ?_
        cases built.get? id <;> exact trivial
      · simp only [if_neg hreached]
        exact keepsTo_getOrCreate hasks id

theorem keepsTo_speculativeDiagnostics (b : Backend π) (id : ProjectId)
    (overrides : Overrides) (s : AnalyzerSet) (analyzed : Bool) :
    KeepsTo asks files (speculativeDiagnostics b ctx id overrides s analyzed).run :=
  keepsTo_attempt_bind (keepsTo_speculate hasks id overrides) fun _ => trivial

theorem keepsTo_diagnostics (hfiles : files ctx.session) (b : Backend π) (id : ProjectId)
    (s : AnalyzerSet) (analyzed : Bool) :
    KeepsTo asks files (diagnostics b ctx id s analyzed).run := by
  refine keepsTo_attempt_bind ⟨hasks, fun _ => trivial⟩ fun r => ?_
  have hcompute : KeepsTo asks files
      (do
        let ds ← diagnostics.liftExcept (collect b r.artifact.value s analyzed)
        Plan.file ⟨⟨ctx.session, id⟩, s.key, analyzed⟩ r.fingerprint ds
          fun held => .done (.ok held) : Attempt π (Held (List Diagnostic))).run :=
    keepsTo_attempt_bind trivial fun _ => ⟨hfiles, fun _ => trivial⟩
  refine keepsTo_attempt_bind (fun _ => trivial) fun found => ?_
  cases found with
  | none => exact hcompute
  | some l =>
      by_cases hsame : l.fingerprint = r.fingerprint
      · simp only [if_pos hsame]
        exact trivial
      · simp only [if_neg hsame]
        exact hcompute

end

end Plan

/-- The session that the call is for. -/
def Call.session : Call → SessionId
  | .artifact ctx _ | .diagnostics ctx _ _ _ | .speculate ctx _ _
  | .speculativeDiagnostics ctx _ _ _ _ => ctx.session

/-- A call asks for its session and files listings for it. -/
theorem Call.keepsTo {call : Call} (b : Backend π) (hasks : asks call.session)
    (hfiles : files call.session) : (call.plan b).KeepsTo asks files := by
  cases call with
  | artifact ctx id =>
      exact Plan.keepsTo_bind (Plan.keepsTo_getOrCreate hasks id) fun _ => trivial
  | diagnostics ctx id names analyzed =>
      exact Plan.keepsTo_bind (Plan.keepsTo_diagnostics hasks hfiles b id _ analyzed)
        fun _ => trivial
  | speculate ctx id overrides =>
      exact Plan.keepsTo_bind (Plan.keepsTo_speculate hasks id overrides) fun _ => trivial
  | speculativeDiagnostics ctx id overrides names analyzed =>
      exact Plan.keepsTo_bind
        (Plan.keepsTo_speculativeDiagnostics hasks b id overrides _ analyzed) fun _ => trivial

/-!
# Requests, tasks and clients
-/

/-- A request that may still get a task off is for a session that may be asked for. -/
def Request.KeepsTo (asks : SessionId → Prop) (r : Request π) : Prop :=
  r.isActive → asks r.context.session

/-- What the task still has to ask for is for such a session. -/
def Task.KeepsTo (asks : SessionId → Prop) (t : Task π) : Prop :=
  match t.stage with
  | .fresh => asks t.context.session
  | .gathering asked left =>
      (left ≠ [] → asks t.context.session) ∧ ∀ r ∈ asked, r.KeepsTo asks
  | _ => True

def ClientStage.KeepsTo (asks files : SessionId → Prop) : ClientStage π → Prop
  | .following plan => plan.KeepsTo asks files
  | .requesting r next => r.KeepsTo asks ∧ ∀ result, (next result).KeepsTo asks files
  | .compiling _ next => ∀ result, (next result).KeepsTo asks files
  | .returned _ | .panicked | .cancelled => True

theorem Request.KeepsTo.of_moves {environment : String} {r r' : Request π} {m m' : Machine π}
    (h : r.KeepsTo asks) (hmove : r.Moves environment m (r', m')) : r'.KeepsTo asks := by
  intro _
  rw [hmove.context_eq.left]
  exact h hmove.isActive

/-- A move leads on from the first stage. -/
theorem Task.not_fresh_of_moves {b : Backend π} {gateOpen : Bool} {ticket : Nat} {t : Task π}
    {m m' : Machine π} (h : m.Formed) (ht : m.tasks.get? ticket = some t)
    (hmove : t.Moves b gateOpen ticket m m') {t' : Task π}
    (ht' : m'.tasks.get? ticket = some t') : t'.stage ≠ .fresh := by
  have hset {m₁ : Machine π} {s : TaskStage π} (ht₁ : m₁.tasks.get? ticket = some t)
      (ht' : (m₁.setStage ticket s).tasks.get? ticket = some t') : t'.stage = s := by
    rw [Machine.get?_setStage_self ht₁] at ht'
    cases ht'
    rfl
  cases hmove with
  | stepped hstage hactive hrequest =>
      rw [hset ((Request.formed_of_moves h hrequest).right ht) ht']
      exact nofun
  | _ =>
      rw [hset ht ht']
      exact nofun

theorem ClientStage.KeepsTo.of_moves {b : Backend π} {s s' : Schedule π}
    {stage stage' : ClientStage π} (h : stage.KeepsTo asks files)
    (hmove : stage.Moves b s stage' s') : stage'.KeepsTo asks files := by
  cases hmove with
  | asks => exact ⟨fun _ => h.left, h.right⟩
  | goesOn hactive =>
      exact ⟨h.left.of_moves (Request.moves_of_step b.environment s.machine hactive), h.right⟩
  | hears hresult => exact h.right _
  | compiles => exact h
  | receives hanswer => exact h _
  | panics hanswer => exact trivial
  | consults => exact h _
  | files => exact h.right _
  | returns => exact trivial

/-!
# Worlds
-/

namespace World

/-- Everything under way keeps to the sessions. -/
structure KeepsTo (asks files : SessionId → Prop) (w : World π) : Prop where
  clients : ∀ c ∈ w.clients, c.stage.KeepsTo asks files
  batches : ∀ {number requests}, w.schedule.batches.get? number = some requests →
    ∀ r ∈ requests, r.KeepsTo asks
  tasks : ∀ {k t}, w.machine.tasks.get? k = some t → t.KeepsTo asks

variable {w w' : World π} {backends : Set (Backend π)} {allowed : Set Upkeep} {b : Backend π}

/-- No call has been made in the meantime, and no batch started. -/
structure StartsNothing (w w' : World π) : Prop where
  clients : w'.clients.length = w.clients.length
  batches : w'.schedule.nextBatch = w.schedule.nextBatch

theorem KeepsTo.asks_of (h : w.KeepsTo asks files) {a : Asker} {r : Request π}
    (hr : w.Asks a r) (hactive : r.isActive) : asks r.context.session := by
  cases hr with
  | client hc hstage =>
      have hclient := h.clients _ hc
      rw [hstage] at hclient
      exact hclient.left hactive
  | batch hbatch hr => exact h.batches hbatch _ hr hactive
  | task ht hstage hr =>
      have htask := h.tasks ht
      rw [Task.KeepsTo, hstage] at htask
      exact htask.right _ hr hactive

/-- A task that is there after a turn has been there for the same session, or its session
may be asked for. -/
theorem KeepsTo.task_of_turn (h : w.KeepsTo asks files) (hformed : w.machine.Formed)
    (hturn : w.Turn backends allowed w') {k : Nat} {t' : Task π}
    (ht' : w'.machine.tasks.get? k = some t') :
    (∃ t, w.machine.tasks.get? k = some t ∧ t.context = t'.context) ∨
      asks t'.context.session := by
  cases World.task_of_turn hformed hturn ht' with
  | stays ht => exact .inl ⟨t', ht, rfl⟩
  | moved hb ht hmove heq =>
      subst heq
      exact .inl ⟨_, ht, rfl⟩
  | @tookOff a r f hr hjoining heq =>
      subst heq
      have hactive : r.isActive := by
        rw [Request.isActive, hjoining]
      exact .inr (h.asks_of hr hactive)

/-- So does every task after a turn. -/
theorem KeepsTo.tasks_of_turn (h : w.KeepsTo asks files) (hformed : w.machine.Formed)
    (hturn : w.Turn backends allowed w') {k : Nat} {t' : Task π}
    (ht' : w'.machine.tasks.get? k = some t') : t'.KeepsTo asks := by
  cases World.task_of_turn hformed hturn ht' with
  | stays ht => exact h.tasks ht
  | @tookOff a r f hr hjoining heq =>
      subst heq
      have hactive : r.isActive := by
        rw [Request.isActive, hjoining]
      exact h.asks_of hr hactive
  | @moved b gateOpen t s hb ht hmove heq =>
      have hbefore := h.tasks ht
      unfold Task.KeepsTo
      cases hstage' : t'.stage with
      | fresh => exact absurd hstage' (Task.not_fresh_of_moves hformed ht hmove ht')
      | gathering asked left =>
          have hctx : t'.context = t.context := by
            rw [heq]
          rw [hctx]
          cases Task.gathering_of_moves hformed ht hmove ht' hstage' with
          | entered hstage =>
              rw [Task.KeepsTo, hstage] at hbefore
              exact ⟨fun _ => hbefore, fun _ hr => absurd hr List.not_mem_nil⟩
          | @stepped asked r r' m₁ left hstage hrequest hkeeps =>
              rw [Task.KeepsTo, hstage] at hbefore
              refine ⟨hbefore.left, fun r'' hr'' => ?_⟩
              rcases List.mem_append.mp hr'' with hr'' | hr''
              · exact hbefore.right r'' (List.mem_append_left _ hr'')
              · rw [List.mem_singleton.mp hr'']
                have hr := hbefore.right r (List.mem_append_right _ (List.mem_singleton_self r))
                exact hr.of_moves hrequest
          | @asked asked id left hstage hlast =>
              rw [Task.KeepsTo, hstage] at hbefore
              have hask := hbefore.left (List.cons_ne_nil id left)
              refine ⟨fun _ => hask, fun r hr => ?_⟩
              rcases List.mem_append.mp hr with hr | hr
              · exact hbefore.right r hr
              · rw [List.mem_singleton.mp hr]
                exact fun _ => hask
      | _ => exact trivial

theorem KeepsTo.of_work (h : w.KeepsTo asks files) (hwork : w.Work b w') :
    (∀ c ∈ w'.clients, c.stage.KeepsTo asks files) ∧
      ∀ {number requests}, w'.schedule.batches.get? number = some requests →
        ∀ r ∈ requests, r.KeepsTo asks := by
  cases hwork with
  | job hjob =>
      refine ⟨h.clients, ?_⟩
      cases Schedule.steps_of_stepJob hjob with
      | task ht hmove => exact h.batches
      | @batch number before after r r' m hbatch hactive hmove =>
          intro number' requests hget r'' hr''
          rw [Table.get?_insert] at hget
          by_cases hnumber : number' = number
          · rw [if_pos hnumber] at hget
            cases hget
            have hold := h.batches hbatch
            rcases List.mem_append.mp hr'' with hr'' | hr''
            · exact hold r'' (List.mem_append_left _ hr'')
            · rcases List.mem_cons.mp hr'' with rfl | hr''
              · have hr := hold r (List.mem_append_right _ List.mem_cons_self)
                exact hr.of_moves hmove
              · exact hold r'' (List.mem_append_right _ (List.mem_cons_of_mem _ hr''))
          · rw [if_neg hnumber] at hget
            exact h.batches hget r'' hr''
  | client hclients hmove =>
      constructor
      · intro c' hc'
        rcases List.mem_append.mp hc' with hc' | hc'
        · exact h.clients c' (hclients ▸ List.mem_append_left _ hc')
        · rcases List.mem_cons.mp hc' with rfl | hc'
          · have hc := h.clients _ (hclients ▸ List.mem_append_right _ List.mem_cons_self)
            exact hc.of_moves hmove
          · exact h.clients c' (hclients ▸ List.mem_append_right _ (List.mem_cons_of_mem _ hc'))
      · intro number requests hget
        have hsame := (ClientStage.same_of_moves hmove).left
        exact h.batches (hsame ▸ hget)

/-- Everything goes on as restrained as it is, unless something new is started. -/
theorem KeepsTo.turn (h : w.KeepsTo asks files) (hformed : w.machine.Formed)
    (hturn : w.Turn backends allowed w') (hstarts : w.StartsNothing w') :
    w'.KeepsTo asks files := by
  have hwork {b : Backend π} (hwork : w.Work b w') : w'.KeepsTo asks files :=
    ⟨(h.of_work hwork).left, (h.of_work hwork).right,
      fun ht' => h.tasks_of_turn hformed hturn ht'⟩
  cases hturn with
  | work hb hw hspares => exact hwork hw
  | aside hb hstep hmachine =>
      cases hstep with
      | work hw => exact hwork hw
      | call call =>
          have hlength := hstarts.clients
          simp at hlength
      | cancel hclients hin =>
          refine ⟨fun c' hc' => ?_, h.batches, h.tasks⟩
          rcases List.mem_append.mp hc' with hc' | hc'
          · exact h.clients c' (hclients ▸ List.mem_append_left _ hc')
          · rcases List.mem_cons.mp hc' with rfl | hc'
            · exact trivial
            · exact h.clients c' (hclients ▸ List.mem_append_right _ (List.mem_cons_of_mem _ hc'))
      | batch rows => exact absurd hstarts.batches (Nat.succ_ne_self _)
      | abort number =>
          exact ⟨h.clients, fun hget => h.batches (Tables.get?_of_get?_erase hget), h.tasks⟩
      | leave hqueue hjob => exact ⟨h.clients, h.batches, h.tasks⟩
      | upkeep u => exact ⟨h.clients, h.batches, h.tasks⟩
      | tick elapsed => exact ⟨h.clients, h.batches, h.tasks⟩
  | upkeep hu hspares => exact ⟨h.clients, h.batches, h.tasks⟩
  | tick elapsed => exact ⟨h.clients, h.batches, h.tasks⟩

/-- A listing that is there after a turn was there before, or its session is one that
listings may be filed for. -/
theorem KeepsTo.listing_of_turn (h : w.KeepsTo asks files)
    (hturn : w.Turn backends allowed w') {key : ListingKey} {l : Listing}
    (hl : w'.machine.tables.listings.get? key = some l) :
    w.machine.tables.listings.get? key = some l ∨ files key.slot.session := by
  rcases World.listing_of_turn hturn hl with hl | ⟨c, hc, next, hstage⟩
  · exact .inl hl
  · have hclient := h.clients c hc
    rw [hstage] at hclient
    exact .inr hclient.left

end World
end Cache
end Ripple
