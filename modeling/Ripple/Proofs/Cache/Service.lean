import Ripple.Proofs.Cache.Speculation
import Ripple.Proofs.Cache.Termination

/-!
# What clients get

The invariant of a world is that its schedule is good and that every client has
in hand a plan that ensures the right reply. When nothing can go on any more,
every client has come to the end of its plan.
-/

namespace Ripple
namespace Cache

variable {π : Type} {b : Backend π} {streams : Set (List UInt8)}

/-!
# Replies without a cache
-/

namespace Call

/-- What an uncached build of the context comes to, or of the context with the
overridden texts. -/
def verdict (b : Backend π) : Call → Verdict (Product π)
  | .artifact ctx id => (ctx.uncached b id).map .artifact
  | .diagnostics ctx id names analyzed =>
      (uncachedListing ctx b id (.ofNames names) analyzed).map .listing
  | .speculate ctx id overrides => ((ctx.override overrides).uncached b id).map .artifact
  | .speculativeDiagnostics ctx id overrides names analyzed =>
      (uncachedListing (ctx.override overrides) b id (.ofNames names) analyzed).map .listing

/-- What the reply to a call may be, whatever fails. -/
def Allows (b : Backend π) (call : Call) (reply : Reply π) : Prop :=
  match call with
  | .artifact _ _ | .diagnostics _ _ _ _ => (call.verdict b).Allows reply
  | .speculate ctx id overrides =>
      ∃ built, Plan.Speculates b ctx overrides id built ∧ reply = built.map .artifact
  | .speculativeDiagnostics ctx id overrides names analyzed =>
      ∃ built, Plan.Speculates b ctx overrides id built ∧
        reply = (built.bind fun a => Plan.collect b a (.ofNames names) analyzed).map .listing

/-- The backend panics in the client itself. -/
def Crashes (b : Backend π) : Call → Prop
  | .artifact _ _ | .diagnostics _ _ _ _ => False
  | .speculate ctx id overrides | .speculativeDiagnostics ctx id overrides _ _ =>
      Plan.Crashes b ctx overrides id

/-- The plan asks for what it likes; its client sees to it that all is known. -/
abbrev Leads (b : Backend π) (streams : Set (List UInt8)) (call : Call)
    (plan : Plan π (Reply π)) : Prop :=
  plan.Ensures b streams (fun _ _ => True) (call.Crashes b) (call.Allows b)

theorem leads_plan (hfree : CollisionFree b.environment streams) (call : Call)
    (hnamed : ∀ names ∈ call.named, Named streams (.ofNames names)) :
    call.Leads b streams (call.plan b) := by
  cases call with
  | artifact ctx id =>
      apply Plan.ensures_bind
      refine (Plan.ensures_getOrCreate trivial).imp ?_
      intro result hresult
      have hmap := hresult.map (Product.artifact (π := π))
      cases result <;> exact hmap
  | diagnostics ctx id names analyzed =>
      apply Plan.ensures_bind
      have hs := hnamed names (List.mem_singleton_self _)
      refine (Plan.ensures_diagnostics hfree hs analyzed trivial).imp ?_
      intro result hresult
      have hmap := hresult.map (Product.listing (π := π))
      cases result <;> exact hmap
  | speculate ctx id overrides =>
      apply Plan.ensures_bind
      refine (Plan.ensures_speculates (fun _ => trivial) fun hcrashes => hcrashes).imp ?_
      intro result hresult
      refine ⟨_, hresult, ?_⟩
      cases result <;> rfl
  | speculativeDiagnostics ctx id overrides names analyzed =>
      apply Plan.ensures_bind
      refine (Plan.ensures_speculatesDiagnostics (fun _ => trivial) (fun hcrashes => hcrashes)
        (.ofNames names) analyzed).imp ?_
      rintro result ⟨built, hbuilt, rfl⟩
      exact ⟨built, hbuilt, rfl⟩

/-- A speculative build need not report what an uncached one would if something
fails. -/
def Assured (b : Backend π) : Call → Prop
  | .artifact _ _ | .diagnostics _ _ _ _ => True
  | .speculate ctx id _ | .speculativeDiagnostics ctx id _ _ _ =>
      Plan.Faultless b ctx ∧ id ∈ ctx.graph.ids

theorem Assured.not_crashes {call : Call} (h : call.Assured b) : ¬ call.Crashes b := by
  cases call with
  | artifact ctx id => exact fun hcrashes => hcrashes
  | diagnostics ctx id names analyzed => exact fun hcrashes => hcrashes
  | speculate ctx id overrides => exact fun hcrashes => hcrashes.exists_fault h.left.compiles
  | speculativeDiagnostics ctx id overrides names analyzed =>
      exact fun hcrashes => hcrashes.exists_fault h.left.compiles

theorem Assured.allows {call : Call} (h : call.Assured b) {reply : Reply π}
    (hallows : call.Allows b reply) : (call.verdict b).Allows reply := by
  cases call with
  | artifact ctx id => exact hallows
  | diagnostics ctx id names analyzed => exact hallows
  | speculate ctx id overrides =>
      rcases hallows with ⟨built, hbuilt, rfl⟩
      rcases hbuilt.faultless h.left h.right with ⟨a, rfl, ha⟩
      have hallows : ((ctx.override overrides).uncached b id).Allows (.ok a) := ha
      exact hallows.map Product.artifact
  | speculativeDiagnostics ctx id overrides names analyzed =>
      rcases hallows with ⟨built, hbuilt, rfl⟩
      rcases hbuilt.faultless h.left h.right with ⟨a, rfl, ha⟩
      exact (uncachedListing_of_ok ha (.ofNames names) analyzed).map Product.listing

end Call

/-!
# The invariant
-/

/-- What a client has in hand leads to the right reply. A request that is fresh has
had nothing hashed yet. -/
def ClientStage.Sound (b : Backend π) (streams : Set (List UInt8)) (call : Call)
    (m : Machine π) : ClientStage π → Prop
  | .following plan => call.Leads b streams plan
  | .requesting r next =>
      (r.stage = .fresh ∨ r.Sound b streams m) ∧
        (r.context.Covered b.environment streams r.project →
          ∀ result, Answers b r.context r.project result → call.Leads b streams (next result))
  | .compiling u next => call.Leads b streams (.compile u next)
  | .returned reply => call.Allows b reply
  | .panicked => call.Crashes b
  | .cancelled => True

theorem ClientStage.Sound.keeps {call : Call} {m m' : Machine π} {stage : ClientStage π}
    (h : stage.Sound b streams call m) (hkeeps : m.Keeps m') :
    stage.Sound b streams call m' := by
  cases stage with
  | requesting r next => exact ⟨h.left.imp_right fun hr => hr.keeps hkeeps, h.right⟩
  | _ => exact h

namespace Schedule

variable {s s' : Schedule π}

theorem good_new (settings : CacheSettings) : (new settings true).Good b streams where
  sound :=
    { machine :=
        { formed := Machine.formed_new settings
          entries := fun h => by cases h
          flights := fun h => by cases h
          listings := fun h => by cases h
          tasks := fun h => by cases h }
      requests := fun h => by cases h }
  formed := ⟨Machine.formed_new settings, List.nodup_nil⟩
  queued := by
    intro job hjob
    cases job <;> cases hjob
  gateOpen := rfl

theorem Follows.updateTables (h : s.Good b streams) {f : Tables π → Tables π}
    (hwithin : s.tables.Within (f s.tables)) : s.Follows b streams (s.updateTables f) :=
  ⟨h.withMachine (h.sound.machine.within rfl hwithin) rfl hwithin.nextTicket,
    Machine.keeps_of_tasks_eq rfl⟩

theorem Good.startBatch (h : s.Good b streams) {requests : List (Request π)}
    (hrequests : ∀ r ∈ requests, r.Sound b streams s.machine) :
    (s.startBatch requests).2.Good b streams where
  sound :=
    { machine := h.sound.machine
      requests := by
        intro number requests' hbatch
        simp only [Schedule.startBatch, Table.get?_insert] at hbatch
        by_cases hnumber : number = s.nextBatch
        · rw [if_pos hnumber] at hbatch
          cases hbatch
          exact hrequests
        · rw [if_neg hnumber] at hbatch
          exact h.sound.requests hbatch }
  formed := ⟨h.formed.machine, Table.nodup_keys_insert h.formed.batches _ _⟩
  queued := by
    intro job hjob
    cases job with
    | task ticket =>
        rw [Schedule.stepJob, Option.isSome_map] at hjob
        exact List.mem_append_left _
          (h.queued _ (by rwa [Schedule.stepJob, Option.isSome_map]))
    | batch number =>
        by_cases hnumber : number = s.nextBatch
        · exact List.mem_append_right _ (hnumber ▸ List.mem_singleton_self _)
        · rw [stepJob_batch_isSome_iff] at hjob
          rcases hjob with ⟨requests', hbatch, hactive⟩
          simp only [Schedule.startBatch, Table.get?_insert, if_neg hnumber] at hbatch
          exact List.mem_append_left _
            (h.queued _ (stepJob_batch_isSome_iff.mpr ⟨requests', hbatch, hactive⟩))
  gateOpen := h.gateOpen

theorem Good.abortBatch (h : s.Good b streams) (number : Nat) :
    (s.abortBatch number).Good b streams := by
  have hwas {k : Nat} {requests : List (Request π)}
      (hbatch : (s.batches.erase number).get? k = some requests) :
      s.batches.get? k = some requests := by
    rw [Table.get?_erase] at hbatch
    split at hbatch
    · cases hbatch
    · exact hbatch
  refine ⟨⟨h.sound.machine, fun hbatch => h.sound.requests (hwas hbatch)⟩,
    ⟨h.formed.machine, Table.nodup_keys_erase h.formed.batches _⟩, ?_, h.gateOpen⟩
  intro job hjob
  cases job with
  | task ticket =>
      rw [Schedule.stepJob, Option.isSome_map] at hjob
      exact h.queued _ (by rwa [Schedule.stepJob, Option.isSome_map])
  | batch k =>
      rw [stepJob_batch_isSome_iff] at hjob
      rcases hjob with ⟨requests, hbatch, hactive⟩
      exact h.queued _ (stepJob_batch_isSome_iff.mpr ⟨requests, hwas hbatch, hactive⟩)

end Schedule

namespace ClientStage

/-- One move of a client keeps what it has in hand sound. -/
theorem sound_of_moves (hfree : CollisionFree b.environment streams) {call : Call}
    {stage stage' : ClientStage π} {s s' : Schedule π} (hs : s.Good b streams)
    (h : stage.Sound b streams call s.machine)
    (hknown : ∀ row ∈ stage.hashes, row.1.Covered b.environment streams row.2)
    (hmove : stage.Moves b s stage' s') :
    s.Follows b streams s' ∧ stage'.Sound b streams call s'.machine := by
  cases hmove with
  | asks => exact ⟨.refl hs, .inl rfl, h.right⟩
  | @goesOn _ r next hactive =>
      rcases h with ⟨hr, hnext⟩
      have hr : r.Sound b streams s.machine := by
        rcases hr with hfresh | hr
        · rcases r with ⟨ctx, id, requestStage⟩
          cases hfresh
          exact ⟨hknown (ctx, id) (List.mem_singleton_self _), trivial⟩
        · exact hr
      rcases Request.sound_step hfree hs.sound.machine hr with ⟨hm, hr', hext⟩
      have hsame := r.context_step b.environment s.machine
      refine ⟨⟨hs.after hm hext, hext.adds.keeps⟩, .inr hr', ?_⟩
      rw [hsame.left, hsame.right]
      exact hnext
  | @hears _ r next result hresult =>
      rcases h with ⟨hr, hnext⟩
      rcases hr with hfresh | hr
      · simp [Request.result?, hfresh] at hresult
      · exact ⟨.refl hs, hnext hr.covered result
          (Request.answers_of_result? hfree hs.sound.machine hr hresult)⟩
  | compiles => exact ⟨Schedule.follows_recordCall hs _, h⟩
  | receives hanswer =>
      have hgood := Schedule.answer_good hs h
      rw [hanswer] at hgood
      exact hgood
  | panics hanswer =>
      have hgood := Schedule.answer_good hs h
      rw [hanswer] at hgood
      exact ⟨.refl hs, hgood⟩
  | consults => exact ⟨.refl hs, h _ fun l hl => hs.sound.machine.listings hl⟩
  | @files _ key f ds next =>
      rcases Schedule.fileListing_good hs h.left with ⟨hfollows, hvalue⟩
      have hnext := h.right (s.fileListing key f ds).1.stamp
      rw [← hvalue] at hnext
      exact ⟨hfollows, hnext⟩
  | returns => exact ⟨.refl hs, h⟩

end ClientStage

namespace World

variable {settings : CacheSettings} {w w' : World π}

structure Sound (b : Backend π) (streams : Set (List UInt8)) (w : World π) : Prop where
  schedule : w.schedule.Good b streams
  clients : ∀ c ∈ w.clients, c.stage.Sound b streams c.call w.schedule.machine

theorem sound_of_work (hfree : CollisionFree b.environment streams)
    (hknown : w'.Known b streams) (h : w.Sound b streams) (hwork : w.Work b w') :
    w'.Sound b streams := by
  cases hwork with
  | job hjob =>
      have hkeeps := (Schedule.steps_of_stepJob hjob).keeps h.schedule.formed
      exact ⟨h.schedule.stepJob hfree hjob, fun c hc => (h.clients c hc).keeps hkeeps⟩
  | @client before after c stage s hclients hmove =>
      have hmem (other : Client π) (hother : other ∈ before ++ after) : other ∈ w.clients := by
        rw [hclients]
        rcases List.mem_append.mp hother with hother | hother
        · exact List.mem_append_left _ hother
        · exact List.mem_append_right _ (List.mem_cons_of_mem _ hother)
      have hc : c ∈ w.clients := by
        rw [hclients]
        exact List.mem_append_right _ List.mem_cons_self
      obtain ⟨hfollows, hstage⟩ := ClientStage.sound_of_moves hfree h.schedule
        (h.clients c hc) (fun row hrow => hknown.printed row (List.mem_append_left _ hrow)) hmove
      refine ⟨hfollows.good, fun other hother => ?_⟩
      rcases List.mem_append.mp hother with hother | hother
      · exact (h.clients other (hmem other (List.mem_append_left _ hother))).keeps hfollows.keeps
      · rcases List.mem_cons.mp hother with rfl | hother
        · exact hstage
        · exact (h.clients other (hmem other (List.mem_append_right _ hother))).keeps
            hfollows.keeps

theorem sound_of_step (hfree : CollisionFree b.environment streams)
    (hknown : w'.Known b streams) (h : w.Sound b streams) (hstep : w.Step b w') :
    w'.Sound b streams := by
  have htables {f : Tables π → Tables π}
      (hwithin : w.schedule.tables.Within (f w.schedule.tables)) :
      ({ w with schedule := w.schedule.updateTables f } : World π).Sound b streams := by
    have hfollows := Schedule.Follows.updateTables h.schedule hwithin
    exact ⟨hfollows.good, fun c hc => (h.clients c hc).keeps hfollows.keeps⟩
  cases hstep with
  | work hwork => exact sound_of_work hfree hknown h hwork
  | call call =>
      refine ⟨h.schedule, fun c hc => ?_⟩
      rcases List.mem_append.mp hc with hc | hc
      · exact h.clients c hc
      · cases List.mem_singleton.mp hc
        exact call.leads_plan hfree fun names hnames =>
          hknown.named names (List.mem_append_left _ hnames)
  | @cancel before after c hclients hin =>
      refine ⟨h.schedule, fun other hother => ?_⟩
      have hclients' := h.clients
      rw [hclients] at hclients'
      rcases List.mem_append.mp hother with hother | hother
      · exact hclients' other (List.mem_append_left _ hother)
      · rcases List.mem_cons.mp hother with rfl | hother
        · exact trivial
        · exact hclients' other (List.mem_append_right _ (List.mem_cons_of_mem _ hother))
  | batch rows =>
      refine ⟨h.schedule.startBatch fun r hr => ?_, h.clients⟩
      rcases List.mem_map.mp hr with ⟨row, hrow, rfl⟩
      exact ⟨hknown.printed row (List.mem_append_left _ hrow), trivial⟩
  | abort number => exact ⟨h.schedule.abortBatch number, h.clients⟩
  | leave hqueue hjob => exact ⟨h.schedule.leave hqueue hjob, h.clients⟩
  | upkeep u => exact htables (u.within _)
  | tick elapsed => exact htables (Tables.within_clock _ _)

/-- Every world that can come about is sound, if nothing it has hashed collides. -/
theorem sound_of_reachable (hfree : CollisionFree b.environment streams)
    (hreach : w.Reachable b settings) (hknown : w.Known b streams) : w.Sound b streams := by
  induction hreach with
  | refl =>
      refine ⟨Schedule.good_new settings, fun c hc => ?_⟩
      cases hc
  | tail _ hstep ih => exact sound_of_step hfree hknown (ih (hknown.of_step hstep)) hstep

/-!
# Nothing is left waiting
-/

/-- A client that has what it waits for can move, unless it is out. -/
theorem isOut_of_not_moves {s : Schedule π} {stage : ClientStage π}
    (hstays : ∀ stage' s', ¬ stage.Moves b s stage' s')
    (hheard : ∀ r next, stage = .requesting r next → ¬ r.isActive →
      (r.result? s.machine).isSome) : stage.isOut := by
  cases stage with
  | following plan =>
      cases plan with
      | done reply => exact (hstays _ _ .returns).elim
      | request ctx id next => exact (hstays _ _ .asks).elim
      | compile u next => exact (hstays _ _ .compiles).elim
      | consult key next => exact (hstays _ _ .consults).elim
      | file key f ds next => exact (hstays _ _ .files).elim
  | requesting r next =>
      by_cases hactive : r.isActive
      · exact (hstays _ _ (.goesOn hactive)).elim
      · rcases Option.isSome_iff_exists.mp (hheard r next rfl hactive) with ⟨result, hresult⟩
        exact (hstays _ _ (.hears hresult)).elim
  | compiling u next =>
      cases hanswer : s.answer b u with
      | none => exact (hstays _ _ (.panics hanswer)).elim
      | some answered => exact (hstays _ _ (.receives hanswer)).elim
  | _ => rfl

/-- Where nothing can go on, every task waits. -/
theorem waits_of_stuck (hopen : w.schedule.gateOpen = true) (hstuck : ∀ w', ¬ w.Work b w')
    {k : Nat} {t : Task π} (ht : w.schedule.machine.tasks.get? k = some t) :
    t.Waits true w.schedule.machine := by
  rw [← hopen]
  apply Schedule.waits_of_not_step (b := b) ht
  intro hstep
  rcases Option.isSome_iff_exists.mp hstep with ⟨s, hs⟩
  exact hstuck _ (.job hs)

/-- A client that cannot move is out, if no task can make a step. -/
theorem isOut_of_stuck (hfree : CollisionFree b.environment streams) (h : w.Sound b streams)
    (hstuck : ∀ w', ¬ w.Work b w') {c : Client π} (hc : c ∈ w.clients) : c.stage.isOut := by
  rcases List.append_of_mem hc with ⟨before, after, hclients⟩
  have hended : ∀ ticket t, w.schedule.machine.tasks.get? ticket = some t →
      ∃ o, t.stage = .ended o :=
    fun ticket t ht => Schedule.ended_of_waits hfree h.schedule.sound.machine
      (fun _ _ hk => waits_of_stuck h.schedule.gateOpen hstuck hk) ht
  refine isOut_of_not_moves (fun _ _ hmove => hstuck _ (.client hclients hmove)) ?_
  intro r next hstage hactive
  have hsound := h.clients c hc
  rw [hstage] at hsound
  rcases hsound.left with hfresh | hr
  · simp [Request.isActive, hfresh] at hactive
  · exact Schedule.result?_isSome_of_ended hr hactive hended

/-!
# Replies
-/

/-- A client that does not give up gets a reply as it is to be, if only what is
under way goes on. -/
structure Serves (b : Backend π) (w : World π) (c : Client π) (expects : Reply π → Prop) :
    Prop where
  unharmed : c.stage ≠ .panicked
  agrees : ∀ reply, c.stage = .returned reply → expects reply
  replies : (∀ w', ¬ w.Work b w') → c.stage = .cancelled ∨ ∃ reply, c.stage = .returned reply

theorem Serves.imp {c : Client π} {expects expects' : Reply π → Prop}
    (h : w.Serves b c expects) (himp : ∀ reply, expects reply → expects' reply) :
    w.Serves b c expects' :=
  ⟨h.unharmed, fun reply hstage => himp reply (h.agrees reply hstage), h.replies⟩

theorem serves_of_allows (hfree : CollisionFree b.environment streams) (h : w.Sound b streams)
    {c : Client π} (hc : c ∈ w.clients) {expects : Reply π → Prop}
    (hcalm : ¬ c.call.Crashes b) (hexpects : ∀ reply, c.call.Allows b reply → expects reply) :
    w.Serves b c expects := by
  have hsound := h.clients c hc
  constructor
  · intro hstage
    rw [hstage] at hsound
    exact hcalm hsound
  · intro reply hstage
    rw [hstage] at hsound
    exact hexpects reply hsound
  · intro hstuck
    have hout := isOut_of_stuck hfree h hstuck hc
    cases hstage : c.stage with
    | returned reply => exact .inr ⟨reply, rfl⟩
    | cancelled => exact .inl rfl
    | panicked =>
        rw [hstage] at hsound
        exact (hcalm hsound).elim
    | _ => simp [ClientStage.isOut, hstage] at hout

theorem serves_of_sound (hfree : CollisionFree b.environment streams) (h : w.Sound b streams)
    {c : Client π} (hc : c ∈ w.clients) {expects : Reply π → Prop}
    (hassured : c.call.Assured b)
    (hexpects : ∀ reply, (c.call.verdict b).Allows reply → expects reply) :
    w.Serves b c expects :=
  serves_of_allows hfree h hc hassured.not_crashes fun reply hallows =>
    hexpects reply (hassured.allows hallows)

end World
end Cache
end Ripple
