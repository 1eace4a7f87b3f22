import Ripple.Proofs.Cache.Once

/-!
# What callers do with an artifact

A client that calls for an artifact or for diagnostics makes one request. It returns the
artifact that it gets, or diagnostics that have been collected from this artifact, by
itself or by an earlier client that has listed them.
-/

namespace Ripple
namespace Cache

variable {π : Type}

/-!
# Calls
-/

/-- The call is for the artifact or the diagnostics of a project. -/
def Call.IsFor (ctx : Context) (id : ProjectId) : Call → Prop
  | .artifact ctx' id' | .diagnostics ctx' id' _ _ => ctx' = ctx ∧ id' = id
  | .speculate _ _ _ | .speculativeDiagnostics _ _ _ _ _ => False

theorem Call.IsFor.eq {call : Call} {ctx : Context} {id id' : ProjectId}
    (h : call.IsFor ctx id) (h' : call.IsFor ctx id') : id' = id := by
  cases call with
  | artifact => exact h'.right.symm.trans h.right
  | diagnostics => exact h'.right.symm.trans h.right
  | speculate => exact h.elim
  | speculativeDiagnostics => exact h.elim

/-- The diagnostics are those of the artifact, for some set of analyzers with the key. -/
def Collected (backends : Set (Backend π)) (a : Artifact π) (analyzers : Fingerprint)
    (analyzed : Bool) (result : Except Error (List Diagnostic)) : Prop :=
  ∃ b ∈ backends, ∃ names, (AnalyzerSet.ofNames names).key = analyzers ∧
    result = Plan.collect b a (.ofNames names) analyzed

/-- What is listed under a key comes from the artifact. -/
def ListedFrom (backends : Set (Backend π)) (a : Artifact π) (key : ListingKey)
    (ds : List Diagnostic) : Prop :=
  Collected backends a key.analyzers key.analyzed (.ok ds)

/-- The reply to a call comes from the artifact. -/
def Call.Replies (backends : Set (Backend π)) (a : Artifact π) (reply : Reply π) : Call → Prop
  | .artifact _ _ => reply = .ok (.artifact a)
  | .diagnostics _ _ names analyzed =>
      ∃ result, Collected backends a (AnalyzerSet.ofNames names).key analyzed result ∧
        reply = result.map .listing
  | .speculate _ _ _ | .speculativeDiagnostics _ _ _ _ _ => False

/-!
# Plans
-/

/-- With its artifact at hand the plan asks for nothing more. As long as listings come
from the artifact, so do those that the plan files, and so does its reply. -/
def Plan.Draws (backends : Set (Backend π)) (a : Artifact π) (slot : Slot) (call : Call) :
    Plan π (Reply π) → Prop
  | .done reply => call.Replies backends a reply
  | .request _ _ _ | .compile _ _ => False
  | .consult key next =>
      key.slot = slot ∧ ∀ found : Option Listing,
        (∀ l, found = some l → ListedFrom backends a key l.diagnostics.value) →
          (next found).Draws backends a slot call
  | .file key _ ds next =>
      key.slot = slot ∧ ListedFrom backends a key ds ∧
        ∀ stamp, (next ⟨stamp, ds⟩).Draws backends a slot call

/-- The same where only listings with the fingerprint need come from the artifact. The plan
files others with this fingerprint. -/
def Plan.Relays (backends : Set (Backend π)) (f : Fingerprint) (a : Artifact π) (slot : Slot)
    (call : Call) : Plan π (Reply π) → Prop
  | .done reply => call.Replies backends a reply
  | .request _ _ _ | .compile _ _ => False
  | .consult key next =>
      key.slot = slot ∧ ∀ found : Option Listing,
        (∀ l, found = some l → l.fingerprint = f →
          ListedFrom backends a key l.diagnostics.value) →
            (next found).Relays backends f a slot call
  | .file key g ds next =>
      key.slot = slot ∧ g = f ∧ ListedFrom backends a key ds ∧
        ∀ stamp, (next ⟨stamp, ds⟩).Relays backends f a slot call

theorem Plan.Relays.draws {backends : Set (Backend π)} {f : Fingerprint} {a : Artifact π}
    {slot : Slot} {call : Call} {plan : Plan π (Reply π)}
    (h : plan.Relays backends f a slot call) : plan.Draws backends a slot call := by
  induction plan with
  | done reply => exact h
  | request ctx id next ih => exact h
  | compile u next ih => exact h
  | consult key next ih =>
      rcases h with ⟨hslot, hnext⟩
      exact ⟨hslot, fun found hfound => ih found (hnext found fun l hl _ => hfound l hl)⟩
  | file key g ds next ih =>
      rcases h with ⟨hslot, _, hfrom, hnext⟩
      exact ⟨hslot, hfrom, fun stamp => ih ⟨stamp, ds⟩ (hnext stamp)⟩

/-- What follows on a request draws on the artifact that comes of it. -/
def DrawsNext (backends : Set (Backend π)) (slot : Slot) (call : Call)
    (next : Except Error (Resolved π) → Plan π (Reply π)) : Prop :=
  ∀ found, (next (.ok found)).Draws backends found.artifact.value slot call

/-- What follows on a request relays what comes of it. -/
structure RelaysNext (backends : Set (Backend π)) (slot : Slot) (call : Call)
    (next : Except Error (Resolved π) → Plan π (Reply π)) : Prop where
  ok : ∀ found,
    (next (.ok found)).Relays backends found.fingerprint found.artifact.value slot call
  error : ∀ e, next (.error e) = .done (.error e)

variable {backends : Set (Backend π)} {b : Backend π} {ctx : Context} {id : ProjectId}
  {call : Call}

/-- A call for an artifact or diagnostics makes its request first. -/
theorem Call.relays_of_isFor (hb : b ∈ backends) (hcall : call.IsFor ctx id) :
    ∃ next, call.plan b = .request ctx id next ∧
      RelaysNext backends ⟨ctx.session, id⟩ call next := by
  cases call with
  | artifact ctx' id' =>
      rcases hcall with ⟨rfl, rfl⟩
      exact ⟨_, rfl, fun found => rfl, fun e => rfl⟩
  | diagnostics ctx' id' names analyzed =>
      rcases hcall with ⟨rfl, rfl⟩
      refine ⟨_, rfl, fun found => ⟨rfl, ?_⟩, fun e => rfl⟩
      let key : ListingKey :=
        ⟨⟨ctx'.session, id'⟩, (AnalyzerSet.ofNames names).key, analyzed⟩
      let compute : Plan.Attempt π (Held (List Diagnostic)) := do
        let ds ← Plan.diagnostics.liftExcept
          (Plan.collect b found.artifact.value (.ofNames names) analyzed)
        Plan.file key found.fingerprint ds fun held => .done (.ok held)
      let reply (result : Except Error (Held (List Diagnostic))) : Plan π (Reply π) :=
        .done (result.map fun ds => .listing ds.value)
      have hcompute : Plan.Relays backends found.fingerprint found.artifact.value key.slot
          (.diagnostics ctx' id' names analyzed) (compute.run.bind reply) := by
        simp only [compute]
        cases hds : Plan.collect b found.artifact.value (.ofNames names) analyzed with
        | error e => exact ⟨.error e, ⟨b, hb, names, rfl, hds.symm⟩, rfl⟩
        | ok ds =>
            have hcollected : Collected backends found.artifact.value key.analyzers
                key.analyzed (.ok ds) := ⟨b, hb, names, rfl, hds.symm⟩
            exact ⟨rfl, rfl, hcollected, fun stamp => ⟨.ok ds, hcollected, rfl⟩⟩
      intro listing? hlisted
      cases listing? with
      | none => exact hcompute
      | some l =>
          change Plan.Relays _ _ _ _ _ ((if l.fingerprint = found.fingerprint
            then pure l.diagnostics else compute : Plan.Attempt π _).run.bind reply)
          by_cases hsame : l.fingerprint = found.fingerprint
          · rw [if_pos hsame]
            exact ⟨.ok l.diagnostics.value, hlisted l rfl hsame, rfl⟩
          · rw [if_neg hsame]
            exact hcompute
  | speculate => exact hcall.elim
  | speculativeDiagnostics => exact hcall.elim

theorem Call.plan_of_isFor (hb : b ∈ backends) (hcall : call.IsFor ctx id) :
    ∃ next, call.plan b = .request ctx id next ∧
      DrawsNext backends ⟨ctx.session, id⟩ call next := by
  rcases relays_of_isFor hb hcall with ⟨next, hplan, hnext⟩
  exact ⟨next, hplan, fun found => (hnext.ok found).draws⟩

/-!
# What has been made
-/

namespace Machine

variable {m m' : Machine π} {a a' : Held (Artifact π)}

/-- A task for the project has settled with the artifact. -/
def Made (m : Machine π) (id : ProjectId) (a : Held (Artifact π)) : Prop :=
  ∃ k t, m.tasks.get? k = some t ∧ t.project = id ∧ t.stage.settled? = some (.ok a)

theorem Made.ages (h : m.Made id a) (hages : m.Ages m') : m'.Made id a := by
  rcases h with ⟨k, t, ht, hid, hsettled⟩
  rcases hages ht with ⟨t', ht', htages⟩
  exact ⟨k, t', ht', (congrArg Slot.project htages.slot).trans hid, htages.settled hsettled⟩

theorem Once.made_unique (h : m.Once backends) (ha : m.Made id a) (ha' : m.Made id a') :
    a' = a := by
  rcases ha with ⟨k, t, ht, hid, hsettled⟩
  rcases ha' with ⟨k', t', ht', hid', hsettled'⟩
  have hk : k' = k := h.unique ht ht' (hid'.trans hid.symm)
  rw [hk, ht] at ht'
  cases ht'
  rw [hsettled] at hsettled'
  cases hsettled'
  rfl

/-- What has been made is what the backend has answered, after it was called once. -/
theorem Once.of_made (h : m.Once backends) (ha : m.Made id a) :
    m.callCount id = 1 ∧ m.Answered backends id a.value := by
  rcases ha with ⟨k, t, ht, rfl, hsettled⟩
  have hproduced := TaskStage.produced?_of_settled? hsettled
  have hfares := h.fares ht
  constructor
  · rw [hfares.count, if_pos (TaskStage.hasCalled_of_produced? hproduced).left]
  · rcases hfares.produced hproduced with ⟨a', ha', hanswered⟩
    cases ha'
    exact hanswered

/-- All listings come from what has been made. -/
def Listed (backends : Set (Backend π)) (m : Machine π) : Prop :=
  ∀ ⦃key l⦄, m.tables.listings.get? key = some l → ∃ a, m.Made key.slot.project a ∧
    ListedFrom backends a.value key l.diagnostics.value

end Machine

theorem Request.listings_of_moves {environment : String} {r r' : Request π}
    {m m' : Machine π} (hmove : r.Moves environment m (r', m')) :
    m'.tables.listings = m.tables.listings := by
  generalize hnext : (r', m') = next at hmove
  cases hmove with
  | found hstage hprint hlook =>
      cases hnext
      rcases Tables.lookUp_eq_some_iff.mp hlook with ⟨e, he, hf, ha, rfl⟩
      rfl
  | stored hstage hlook =>
      cases hnext
      rcases Tables.lookUp_eq_some_iff.mp hlook with ⟨e, he, hf, ha, rfl⟩
      rfl
  | _ =>
      cases hnext
      rfl

/-- Only clients list anything. -/
theorem Task.listing_of_moves {gateOpen : Bool} {ticket : Nat} {t : Task π}
    {m m' : Machine π} (hmove : t.Moves b gateOpen ticket m m') {key : ListingKey}
    {l : Listing} (hl : m'.tables.listings.get? key = some l) :
    m.tables.listings.get? key = some l := by
  cases hmove with
  | stepped hstage hactive hrequest => exact Request.listings_of_moves hrequest ▸ hl
  | answered => exact (within_conclude _ _ _).listings hl
  | swept => exact (Tables.within_sweepCapacity _).listings hl
  | _ => exact hl

/-!
# How far a client is
-/

/-- A client that calls for a project makes one request for it, and draws on what has been
made. -/
inductive ClientStage.Pursues (backends : Set (Backend π)) (m : Machine π) (ctx : Context)
    (id : ProjectId) (call : Call) : ClientStage π → Prop where
  | asks {next : Except Error (Resolved π) → Plan π (Reply π)}
      (hnext : DrawsNext backends ⟨ctx.session, id⟩ call next) :
      Pursues backends m ctx id call (.following (.request ctx id next))
  | requests {r : Request π} {next : Except Error (Resolved π) → Plan π (Reply π)}
      (hctx : r.context = ctx) (hid : r.project = id)
      (hnext : DrawsNext backends ⟨ctx.session, id⟩ call next) :
      Pursues backends m ctx id call (.requesting r next)
  | draws {plan : Plan π (Reply π)} {a : Held (Artifact π)} (ha : m.Made id a)
      (hplan : plan.Draws backends a.value ⟨ctx.session, id⟩ call) :
      Pursues backends m ctx id call (.following plan)
  | returned {reply : Reply π} {a : Held (Artifact π)} (ha : m.Made id a)
      (hreply : call.Replies backends a.value reply) :
      Pursues backends m ctx id call (.returned reply)
  | cancelled : Pursues backends m ctx id call .cancelled

theorem ClientStage.Pursues.ages {m m' : Machine π} {stage : ClientStage π}
    (h : stage.Pursues backends m ctx id call) (hages : m.Ages m') :
    stage.Pursues backends m' ctx id call := by
  cases h with
  | asks hnext => exact .asks hnext
  | requests hctx hid hnext => exact .requests hctx hid hnext
  | draws ha hplan => exact .draws (ha.ages hages) hplan
  | returned ha hreply => exact .returned (ha.ages hages) hreply
  | cancelled => exact .cancelled

theorem ClientStage.pursues_of_moves {s s' : Schedule π} {stage stage' : ClientStage π}
    (h : stage.Pursues backends s.machine ctx id call) (honce : s.machine.Once backends)
    (hlisted : s.machine.Listed backends)
    (hanswers : ∀ r next result, stage = .requesting r next →
      r.result? s.machine = some result →
        ∃ found, result = .ok found ∧ s.machine.Made r.project found.artifact)
    (hages : s.machine.Ages s'.machine) (hmove : stage.Moves b s stage' s') :
    stage'.Pursues backends s'.machine ctx id call := by
  cases h with
  | asks hnext =>
      cases hmove with
      | asks => exact .requests rfl rfl hnext
  | requests hctx hid hnext =>
      cases hmove with
      | goesOn hactive =>
          rcases (Request.moves_of_step b.environment s.machine hactive).context_eq with
            ⟨hctx', hid'⟩
          exact .requests (hctx'.trans hctx) (hid'.trans hid) hnext
      | hears hresult =>
          rcases hanswers _ _ _ rfl hresult with ⟨found, rfl, hmade⟩
          exact .draws (hid ▸ hmade.ages hages) (hnext found)
  | draws ha hplan =>
      cases hmove with
      | asks => exact hplan.elim
      | compiles => exact hplan.elim
      | @consults _ key next =>
          refine .draws (ha.ages hages) (hplan.right _ ?_)
          intro l hl
          rcases hlisted hl with ⟨a', ha', hfrom⟩
          rw [hplan.left] at ha'
          rw [honce.made_unique ha ha'] at hfrom
          exact hfrom
      | files => exact .draws (ha.ages hages) (hplan.right.right _)
      | returns => exact .returned (ha.ages hages) hplan
  | returned ha hreply => cases hmove
  | cancelled => cases hmove

/-!
# Clients from turn to turn
-/

namespace World

variable {allowed : Set Upkeep} {w w' : World π}

/-- Where a client comes from that is there after a turn. -/
inductive ClientComes (backends : Set (Backend π)) (w w' : World π) (c' : Client π) : Prop where
  | stays (hc : c' ∈ w.clients)
  | moved {b : Backend π} {c : Client π} (hb : b ∈ backends) (hc : c ∈ w.clients)
      (hcall : c'.call = c.call) (hmove : c.stage.Moves b w.schedule c'.stage w'.schedule)
  | calls {b : Backend π} (hb : b ∈ backends) (hstage : c'.stage = .following (c'.call.plan b))
  | cancelled (hstage : c'.stage = .cancelled)

theorem client_of_turn (hturn : w.Turn backends allowed w') {c' : Client π}
    (hc' : c' ∈ w'.clients) : ClientComes backends w w' c' := by
  have hmoved {b : Backend π} (hb : b ∈ backends) (hwork : w.Work b w') :
      ClientComes backends w w' c' := by
    rcases client_of_work hwork hc' with hc | ⟨c, hc, hcall, hmove, _⟩
    · exact .stays hc
    · exact .moved hb hc hcall hmove
  cases hturn with
  | work hb hwork hspares => exact hmoved hb hwork
  | @aside b _ hb hstep hmachine =>
      cases hstep with
      | work hwork => exact hmoved hb hwork
      | call call =>
          rcases List.mem_append.mp hc' with hmem | hmem
          · exact .stays hmem
          · rw [List.mem_singleton.mp hmem]
            exact .calls hb rfl
      | cancel hclients hin =>
          rcases List.mem_append.mp hc' with hmem | hmem
          · exact .stays (hclients ▸ List.mem_append_left _ hmem)
          · rcases List.mem_cons.mp hmem with rfl | hmem
            · exact .cancelled rfl
            · exact .stays (hclients ▸ List.mem_append_right _ (List.mem_cons_of_mem _ hmem))
      | _ => exact .stays hc'
  | upkeep hu hspares => exact .stays hc'
  | tick elapsed => exact .stays hc'

/-- Clients keep their calls. -/
theorem calls_subset_of_work (hwork : w.Work b w') :
    w.clients.map Client.call ⊆ w'.clients.map Client.call := by
  cases hwork with
  | job hjob => exact List.Subset.refl _
  | client hclients hmove =>
      rw [hclients]
      simp

theorem calls_subset_of_turn (hturn : w.Turn backends allowed w') :
    w.clients.map Client.call ⊆ w'.clients.map Client.call := by
  cases hturn with
  | work hb hwork hspares => exact calls_subset_of_work hwork
  | aside hb hstep hmachine =>
      cases hstep with
      | work hwork => exact calls_subset_of_work hwork
      | call call => simp
      | cancel hclients hin =>
          rw [hclients]
          simp
      | _ => exact List.Subset.refl _
  | upkeep hu hspares => exact List.Subset.refl _
  | tick elapsed => exact List.Subset.refl _

/-- Projects are hashed for clients, or for batches that have been started. -/
theorem printed_of_turn (hturn : w.Turn backends allowed w') {row : Context × ProjectId}
    (hrow : row ∈ w'.printed) :
    row ∈ w.printed ∨ (∃ c ∈ w.clients, row ∈ c.stage.hashes) ∨
      ∃ number requests, w'.schedule.batches.get? number = some requests := by
  have hwork {b : Backend π} (hwork : w.Work b w') :
      row ∈ w.printed ∨ ∃ c ∈ w.clients, row ∈ c.stage.hashes := by
    cases hwork with
    | job hjob => exact .inl hrow
    | client hclients hmove =>
        rcases List.mem_append.mp hrow with hrow | hrow
        · exact .inr ⟨_, hclients ▸ List.mem_append_right _ List.mem_cons_self, hrow⟩
        · exact .inl hrow
  cases hturn with
  | work hb hw hspares => exact (hwork hw).imp_right .inl
  | aside hb hstep hmachine =>
      cases hstep with
      | work hw => exact (hwork hw).imp_right .inl
      | batch rows => exact .inr (.inr ⟨_, _, Table.get?_insert_self ..⟩)
      | _ => exact .inl hrow
  | upkeep hu hspares => exact .inl hrow
  | tick elapsed => exact .inl hrow

theorem listing_of_work (hwork : w.Work b w') {key : ListingKey} {l : Listing}
    (hl : w'.machine.tables.listings.get? key = some l) :
    w.machine.tables.listings.get? key = some l ∨ ∃ c ∈ w.clients, ∃ next,
      c.stage = .following (.file key l.fingerprint l.diagnostics.value next) := by
  cases hwork with
  | job hjob =>
      cases Schedule.steps_of_stepJob hjob with
      | task ht hmove => exact .inl (Task.listing_of_moves hmove hl)
      | batch hbatch hactive hmove => exact .inl (Request.listings_of_moves hmove ▸ hl)
  | @client before after c stage s hclients hmove =>
      have hc : c ∈ w.clients := hclients ▸ List.mem_append_right _ List.mem_cons_self
      generalize hbefore : c.stage = stage at hmove
      cases hmove with
      | goesOn hactive =>
          have hmove := Request.moves_of_step b.environment w.machine hactive
          exact .inl (Request.listings_of_moves hmove ▸ hl)
      | receives hanswer =>
          rcases Schedule.eq_of_answer hanswer with rfl | ⟨a, rfl⟩
          · exact .inl hl
          · exact .inl hl
      | @files _ key' f ds next =>
          by_cases hkey : key = key'
          · subst hkey
            have hself : (w.machine.tables.listings.insert key ⟨f, _⟩).get? key = some l := hl
            rw [Table.get?_insert_self] at hself
            cases hself
            exact .inr ⟨c, hc, next, hbefore⟩
          · have hother : (w.machine.tables.listings.insert key' ⟨f, _⟩).get? key = some l := hl
            rw [Table.get?_insert_of_ne _ hkey] at hother
            exact .inl hother
      | _ => exact .inl hl

/-- Listings are what clients have filed. -/
theorem listing_of_turn (hturn : w.Turn backends allowed w') {key : ListingKey} {l : Listing}
    (hl : w'.machine.tables.listings.get? key = some l) :
    w.machine.tables.listings.get? key = some l ∨ ∃ c ∈ w.clients, ∃ next,
      c.stage = .following (.file key l.fingerprint l.diagnostics.value next) := by
  cases hturn with
  | work hb hwork hspares => exact listing_of_work hwork hl
  | aside hb hstep hmachine => exact .inl (hmachine ▸ hl)
  | upkeep hu hspares => exact .inl ((Upkeep.within _ _).listings hl)
  | tick elapsed => exact .inl hl

end World

end Cache
end Ripple
