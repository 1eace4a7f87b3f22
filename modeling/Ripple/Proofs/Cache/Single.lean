import Ripple.Proofs.Cache.Callers

/-!
# Calls for the projects of one context

Clients that call for artifacts and diagnostics in one context want the projects that
they name and all that these depend on. Each of these projects is compiled once, whoever
asks for it, and all get what has come of this one compile.
-/

namespace Ripple
namespace Cache

variable {π : Type}

/-- Backends in one environment that never fail. -/
structure Reliable (backends : Set (Backend π)) (environment : String) : Prop where
  environment : ∀ b ∈ backends, b.environment = environment
  compiles : ∀ b ∈ backends, ∀ u, ∃ a, b.compile u = .compiled a

variable {backends : Set (Backend π)} {allowed : Set Upkeep} {settings : CacheSettings}
  {environment : String} {b : Backend π} {ctx : Context} {w w' : World π}

theorem Reliable.exists_print (h : Reliable backends environment) (hb : b ∈ backends)
    (hctx : ctx.Complete) {id : ProjectId} (hid : id ∈ ctx.graph.ids) :
    ∃ f, ctx.print b.environment id = .ok f := by
  rcases Context.uncached_isOk hctx (h.compiles b hb) hid with ⟨a, ha⟩
  cases hprint : ctx.print b.environment id with
  | ok f => exact ⟨f, rfl⟩
  | error e =>
      rcases Context.uncached_of_print_error (b := b) hprint with ⟨es, hes, _⟩
      rw [ha] at hes
      cases hes

/-- All fingerprints of a project are the same. -/
theorem Reliable.printed_eq (h : Reliable backends environment) {id : ProjectId}
    {f f' : Fingerprint} (hf : Printed backends f ctx id) (hf' : Printed backends f' ctx id) :
    f' = f := by
  rcases hf with ⟨b, hb, hprint⟩
  rcases hf' with ⟨b', hb', hprint'⟩
  rw [h.environment b' hb', ← h.environment b hb, hprint] at hprint'
  cases hprint'
  rfl

/-!
# What requests have come to
-/

/-- What a request has found, or has been told at once. -/
def RequestStage.resolved? : RequestStage π → Option (Except Error (Resolved π))
  | .found r => some (.ok r)
  | .settled result => some result
  | _ => none

/-- A request is told what is stored, unless its project has no fingerprint. -/
theorem Request.resolved_of_moves {r r' : Request π} {m m' : Machine π}
    (hmove : r.Moves environment m (r', m')) {x : Except Error (Resolved π)}
    (hx : r'.stage.resolved? = some x) :
    r.stage.resolved? = some x ∨
      (∃ f a, x = .ok ⟨f, a⟩ ∧ m.tables.stored? r.slot = some (f, a)) ∨
        ∃ e, x = .error e ∧ r.context.print environment r.project = .error e := by
  generalize hnext : (r', m') = next at hmove
  cases hmove with
  | refused hstage hprint =>
      cases hnext
      cases hx
      exact .inr (.inr ⟨_, rfl, r.context.fingerprint_eq_print _ _ ▸ hprint⟩)
  | found hstage hprint hlook =>
      cases hnext
      cases hx
      exact .inr (.inl ⟨_, _, rfl, (Tables.alike_of_lookUp hlook).left⟩)
  | hit hstage =>
      cases hnext
      cases hx
      exact .inl (congrArg RequestStage.resolved? hstage)
  | stored hstage hlook =>
      cases hnext
      cases hx
      exact .inr (.inl ⟨_, _, rfl, (Tables.alike_of_lookUp hlook).left⟩)
  | _ =>
      cases hnext
      cases hx

/-- Once everything has been gathered, every request has its result. -/
theorem Task.result?_of_gathered? {m : Machine π} {asked : List (Request π)}
    {references : List (Held (Artifact π))}
    (h : gathered? m asked = some (.inr references)) :
    ∀ r ∈ asked, ∃ found, r.result? m = some (.ok found) := by
  induction asked generalizing references with
  | nil => exact nofun
  | cons r rest ih =>
      rcases of_gathered?_cons h with ⟨found, more, hresult, hmore⟩
      rw [List.forall_mem_cons]
      exact ⟨⟨found, hresult⟩, ih hmore⟩

/-- A task that thrives has all its dependencies before it calls the backend. -/
theorem Task.gathered_of_moves {gateOpen : Bool} {k : Nat} {t t' : Task π}
    {m m' : Machine π} (hm : m.Formed) (ht : m.tasks.get? k = some t)
    (hthrives : t.Thrives b m) (hmove : t.Moves b gateOpen k m m')
    (ht' : m'.tasks.get? k = some t') (hgathered : t'.stage.hasGathered) :
    t.stage.hasGathered ∨ ∃ asked references, t.stage = .gathering asked [] ∧
      gathered? m asked = some (.inr references) := by
  cases hmove with
  | unknown hstage hproject =>
      rcases hthrives.project with ⟨p, hp⟩
      rw [hp] at hproject
      cases hproject
  | entered hstage =>
      rw [Machine.get?_setStage_self ht] at ht'
      cases ht'
      cases hgathered
  | stepped hstage hactive hrequest =>
      have ht₁ := (Request.formed_of_moves hm hrequest).right ht
      rw [Machine.get?_setStage_self ht₁] at ht'
      cases ht'
      cases hgathered
  | failed hstage hfailed =>
      refine absurd hfailed (isOk_of_gathered? ?_)
      exact fun r hr result hresult => hthrives.answers hstage hr hresult
  | asked hstage hlast =>
      rw [Machine.get?_setStage_self ht] at ht'
      cases ht'
      cases hgathered
  | gathered hstage hall => exact .inr ⟨_, _, hstage, hall⟩
  | counted hstage | called hstage | answered hstage | landed hstage | crashed hstage
  | diverted hstage | stored hstage | cleared hstage | announced hstage | swept hstage =>
      left
      rw [hstage]
      rfl

/-!
# The machine
-/

/-- A turn that removes no entry gets no second compile off, if no client has units compiled
for itself. -/
theorem World.once_of_calm (h : w.machine.Once backends) (hm : w.machine.Formed)
    (hmatches : ∀ {a r}, w.Asks a r → r.Matches w.machine)
    (hthrives : ∀ {b k t}, b ∈ backends → w.machine.tasks.get? k = some t →
      t.Thrives b w.machine)
    (hcompiles : ∀ c ∈ w.clients, ∀ u next, c.stage ≠ .following (.compile u next))
    (hcalm : w.Calm backends sweeps w') : w'.machine.Once backends := by
  have hretains := hcalm.retains
  cases hcalm.turn with
  | work hb hwork hspares =>
      cases hwork with
      | job hjob =>
          cases Schedule.steps_of_stepJob hjob with
          | task ht hmove =>
              exact Task.once_of_moves hb h hm ht (hthrives hb ht) hmove hretains
          | @batch number before after r r' m hbatch hactive hmove =>
              have hmem : r ∈ before ++ r :: after :=
                List.mem_append_right _ List.mem_cons_self
              exact Request.once_of_moves h hm (hmatches (.batch hbatch hmem)) hmove
      | @client before after c stage s hclients hmove =>
          have hc : c ∈ w.clients := hclients ▸ List.mem_append_right _ List.mem_cons_self
          generalize hbefore : c.stage = stage at hmove
          cases hmove with
          | goesOn hactive =>
              exact Request.once_of_moves h hm (hmatches (.client hc hbefore))
                (Request.moves_of_step _ _ hactive)
          | compiles => exact absurd hbefore (hcompiles c hc _ _)
          | receives hanswer =>
              rcases Schedule.eq_of_answer hanswer with rfl | ⟨a, rfl⟩
              · exact h
              · exact h.alike rfl rfl rfl rfl
          | files => exact h.alike rfl rfl rfl rfl
          | _ => exact h
  | aside hb hstep hmachine => exact hmachine ▸ h
  | @upkeep u hu hspares =>
      exact h.alike rfl rfl (hu.flights_eq _) ((u.within _).stored?_eq hretains)
  | tick elapsed => exact h.alike rfl rfl rfl rfl

/-!
# The invariant
-/

namespace World

/-- All clients call for artifacts or diagnostics of projects of the context. -/
def Devoted (ctx : Context) (w : World π) : Prop :=
  ∀ c ∈ w.clients, ∃ id ∈ ctx.graph.ids, c.call.IsFor ctx id

/-- Some client calls for the project or for one that needs it. -/
def Needed (ctx : Context) (w : World π) (id : ProjectId) : Prop :=
  ∃ c ∈ w.clients, ∃ root, c.call.IsFor ctx root ∧ ctx.graph.Needs root id

/-- One compile for each project that is needed, and for no other. -/
structure Sole (backends : Set (Backend π)) (ctx : Context) (w : World π) : Prop where
  once : w.machine.Once backends
  listed : w.machine.Listed backends
  clients : ∀ c ∈ w.clients, ∀ id, c.call.IsFor ctx id →
    c.stage.Pursues backends w.machine ctx id c.call
  printed : ∀ row ∈ w.printed, row.1 = ctx ∧ ∃ c ∈ w.clients, c.call.IsFor ctx row.2
  batches : w.schedule.batches = ∅
  resolved : ∀ {a r x}, w.Asks a r → r.stage.resolved? = some x →
    ∃ found, x = .ok found ∧ w.machine.Made r.project found.artifact
  gathering : ∀ {k t asked left}, w.machine.tasks.get? k = some t →
    t.stage = .gathering asked left →
      asked.map Request.project ++ left = t.context.graph.effectiveDependencies t.project
  below : ∀ {k t}, w.machine.tasks.get? k = some t → t.stage.hasGathered →
    ∀ c ∈ t.context.graph.effectiveDependencies t.project, ∃ a, w.machine.Made c a

theorem sole_start (ctx : Context) : (start settings : World π).Sole backends ctx := by
  have hnone {a : Asker} {r : Request π} (hr : (start settings : World π).Asks a r) : False := by
    cases hr with
    | client hc hstage => cases hc
    | batch hbatch hr => cases hbatch
    | task ht hstage hr => cases ht
  exact ⟨Machine.once_new settings, nofun, nofun, nofun, rfl, fun hr => (hnone hr).elim, nofun,
    nofun⟩

theorem Devoted.of_turn (h : w'.Devoted ctx) (hturn : w.Turn backends allowed w') :
    w.Devoted ctx := by
  intro c hc
  rcases List.mem_map.mp (calls_subset_of_turn hturn (List.mem_map_of_mem hc)) with
    ⟨c', hc', hcall⟩
  exact hcall ▸ h c' hc'

theorem Devoted.mem_ids (h : w.Devoted ctx) {id : ProjectId} (hneeded : w.Needed ctx id) :
    id ∈ ctx.graph.ids := by
  rcases hneeded with ⟨c, hc, root, hcall, hneeds⟩
  rcases h c hc with ⟨root', hroot, hcall'⟩
  exact hneeds.mem_ids (hcall'.eq hcall ▸ hroot)

/-!
# What everybody asks for
-/

/-- Only what clients need is wanted. -/
theorem Sole.needed (h : w.Sole backends ctx) {ctx' : Context} {id : ProjectId}
    (hwanted : w.Wanted ctx' id) : ctx' = ctx ∧ w.Needed ctx id := by
  induction hwanted with
  | printed hrow =>
      rcases h.printed _ hrow with ⟨hctx, c, hc, hcall⟩
      exact ⟨hctx, c, hc, _, hcall, .refl⟩
  | dependency _ hdep ih =>
      rcases ih with ⟨rfl, c, hc, root, hcall, hneeds⟩
      exact ⟨rfl, c, hc, root, hcall, hneeds.tail hdep⟩

theorem Sole.context_of_asks (h : w.Sole backends ctx) (htidy : w.Tidy)
    (hdevoted : w.Devoted ctx) {a : Asker} {r : Request π} (hr : w.Asks a r) :
    r.context = ctx ∧ r.project ∈ ctx.graph.ids := by
  have hbefits := htidy.requests hr
  cases hr with
  | client hc hstage =>
      rcases hdevoted _ hc with ⟨id, hid, hcall⟩
      have hpursues := h.clients _ hc id hcall
      rw [hstage] at hpursues
      cases hpursues with
      | requests hctx hproject => exact ⟨hctx, hproject ▸ hid⟩
  | batch hbatch hr =>
      rw [h.batches] at hbatch
      cases hbatch
  | task ht hstage hr =>
      rcases hbefits ht with ⟨hctx, hdep⟩
      rcases h.needed (htidy.tasks ht) with ⟨hctx', hneeded⟩
      rw [hctx'] at hctx hdep
      exact ⟨hctx, Graph.mem_ids_of_effective hdep⟩

/-- All tasks for the project of a request are for its fingerprint. -/
theorem Sole.matches (h : w.Sole backends ctx) (hrel : Reliable backends environment)
    (htidy : w.Tidy) (htraced : w.Traced backends) (hdevoted : w.Devoted ctx) {a : Asker}
    {r : Request π} (hr : w.Asks a r) : r.Matches w.machine := by
  intro f hjoining k t ht hid
  have hprinted := htraced.requests hr f (congrArg RequestStage.fingerprint? hjoining)
  have hprinted' := htraced.tasks ht
  have hctx := (h.context_of_asks htidy hdevoted hr).left
  have hctx' := (h.needed (htidy.tasks ht)).left
  rw [hctx] at hprinted
  rw [hctx', hid] at hprinted'
  constructor
  · rw [Task.slot, Request.slot, hctx, hctx', hid]
  · exact hrel.printed_eq hprinted hprinted'

/-- Every result is what has been made of the project. -/
theorem Sole.answers (h : w.Sole backends ctx) (htraced : w.Traced backends) {a : Asker}
    {r : Request π} (hr : w.Asks a r) {result : Except Error (Resolved π)}
    (hresult : r.result? w.machine = some result) :
    ∃ found, result = .ok found ∧ w.machine.Made r.project found.artifact := by
  unfold Request.result? at hresult
  cases hstage : r.stage with
  | settled result' =>
      rw [hstage] at hresult
      cases hresult
      exact h.resolved hr (congrArg RequestStage.resolved? hstage)
  | waiting f k =>
      rw [hstage] at hresult
      rcases htraced.awaited hr hstage with ⟨t, ht, hslot, hf⟩
      rcases Option.map_eq_some_iff.mp hresult with ⟨o, ho, rfl⟩
      have houtcome : t.stage.outcome? = some o := by
        simpa [Machine.outcome?, ht] using ho
      have hsettled := (TaskStage.settled?_of_outcome? houtcome).left
      rcases (h.once.fares ht).settled hsettled with ⟨held, rfl, _⟩
      exact ⟨⟨f, held⟩, rfl, k, t, ht, congrArg Slot.project hslot, hsettled⟩
  | _ =>
      rw [hstage] at hresult
      cases hresult

theorem Sole.thrives (h : w.Sole backends ctx) (hctx : ctx.Complete)
    (hrel : Reliable backends environment) (htidy : w.Tidy) (htraced : w.Traced backends)
    (hdevoted : w.Devoted ctx) (hb : b ∈ backends) {k : Nat} {t : Task π}
    (ht : w.machine.tasks.get? k = some t) : t.Thrives b w.machine := by
  rcases h.needed (htidy.tasks ht) with ⟨hcontext, hneeded⟩
  constructor
  · rw [hcontext]
    exact hctx _ (hdevoted.mem_ids hneeded)
  · exact hrel.compiles b hb
  · intro asked left r result hstage hr hresult
    rcases h.answers htraced (.task ht hstage hr) hresult with ⟨found, hfound, _⟩
    exact ⟨found, hfound⟩
  · intro asked left r hstage hr
    exact h.matches hrel htidy htraced hdevoted (.task ht hstage hr)

/-!
# Turns
-/

theorem ages_of_calm (hm : w.machine.Formed) (hcalm : w.Calm backends sweeps w') :
    w.machine.Ages w'.machine :=
  (Machine.effect_of_turns hm hcalm.turn.machine.left).ages

theorem Sole.listed_of_calm (h : w.Sole backends ctx) (hages : w.machine.Ages w'.machine)
    (hdevoted : w.Devoted ctx) (hcalm : w.Calm backends sweeps w') :
    w'.machine.Listed backends := by
  intro key l hl
  rcases listing_of_turn hcalm.turn hl with hl | ⟨c, hc, next, hstage⟩
  · rcases h.listed hl with ⟨a, ha, hfrom⟩
    exact ⟨a, ha.ages hages, hfrom⟩
  · rcases hdevoted c hc with ⟨id, _, hcall⟩
    have hpursues := h.clients c hc id hcall
    rw [hstage] at hpursues
    cases hpursues with
    | draws ha hplan =>
        refine ⟨_, ?_, hplan.right.left⟩
        rw [hplan.left]
        exact ha.ages hages

theorem Sole.clients_of_calm (h : w.Sole backends ctx) (htraced : w.Traced backends)
    (hages : w.machine.Ages w'.machine) (hcalm : w.Calm backends sweeps w') :
    ∀ c ∈ w'.clients, ∀ id, c.call.IsFor ctx id →
      c.stage.Pursues backends w'.machine ctx id c.call := by
  intro c' hc' id hcall
  cases client_of_turn hcalm.turn hc' with
  | stays hc => exact (h.clients c' hc id hcall).ages hages
  | @moved b c hb hc hsame hmove =>
      have hpursues := h.clients c hc id (hsame ▸ hcall)
      rw [hsame]
      refine ClientStage.pursues_of_moves hpursues h.once h.listed ?_ hages hmove
      exact fun r next result hstage hresult => h.answers htraced (.client hc hstage) hresult
  | calls hb hstage =>
      rcases Call.plan_of_isFor hb hcall with ⟨next, hplan, hnext⟩
      rw [hstage, hplan]
      exact .asks hnext
  | cancelled hstage =>
      rw [hstage]
      exact .cancelled

theorem Sole.printed_of_calm (h : w.Sole backends ctx) (hdevoted : w.Devoted ctx)
    (hcalm : w.Calm backends sweeps w') :
    ∀ row ∈ w'.printed, row.1 = ctx ∧ ∃ c ∈ w'.clients, c.call.IsFor ctx row.2 := by
  have hkeeps {id : ProjectId} (hcalls : ∃ c ∈ w.clients, c.call.IsFor ctx id) :
      ∃ c ∈ w'.clients, c.call.IsFor ctx id := by
    rcases hcalls with ⟨c, hc, hcall⟩
    rcases List.mem_map.mp (calls_subset_of_turn hcalm.turn (List.mem_map_of_mem hc)) with
      ⟨c', hc', hsame⟩
    exact ⟨c', hc', hsame ▸ hcall⟩
  intro row hrow
  rcases printed_of_turn hcalm.turn hrow with hrow | ⟨c, hc, hrow⟩ | ⟨number, requests, hbatch⟩
  · rcases h.printed row hrow with ⟨hctx, hcalls⟩
    exact ⟨hctx, hkeeps hcalls⟩
  · rcases hdevoted c hc with ⟨id, _, hcall⟩
    have hpursues := h.clients c hc id hcall
    generalize c.stage = stage at hpursues hrow
    cases hpursues with
    | requests hctx hid hnext =>
        rw [ClientStage.eq_of_mem_hashes hrow]
        exact ⟨hctx, hkeeps ⟨c, hc, hid ▸ hcall⟩⟩
    | _ => cases hrow
  · rw [hcalm.batches, h.batches] at hbatch
    cases hbatch

theorem Sole.resolved_of_calm (h : w.Sole backends ctx) (hctx : ctx.Complete)
    (hrel : Reliable backends environment) (horderly : w.machine.Orderly) (htidy : w.Tidy)
    (hdevoted : w.Devoted ctx) (hages : w.machine.Ages w'.machine)
    (hcalm : w.Calm backends sweeps w') {a : Asker} {r' : Request π}
    {x : Except Error (Resolved π)} (hr' : w'.Asks a r') (hx : r'.stage.resolved? = some x) :
    ∃ found, x = .ok found ∧ w'.machine.Made r'.project found.artifact := by
  have hold {r : Request π} (hr : w.Asks a r) (hx : r.stage.resolved? = some x) :
      ∃ found, x = .ok found ∧ w'.machine.Made r.project found.artifact := by
    rcases h.resolved hr hx with ⟨found, rfl, hmade⟩
    exact ⟨found, rfl, hmade.ages hages⟩
  cases comes_of_turn horderly.formed hcalm.turn hr' with
  | stays hr => exact hold hr hx
  | made hstage horigin =>
      rw [hstage] at hx
      cases hx
  | @moved b r m hb hr hprinted hmove hkeeps =>
      rw [hmove.context_eq.right]
      rcases Request.resolved_of_moves hmove hx with
        hx | ⟨f, held, rfl, hstored⟩ | ⟨e, _, he⟩
      · exact hold hr hx
      · rcases horderly.entries hstored with ⟨k, t, ht, hslot, _, hsettled, _⟩
        have hmade : w.machine.Made r.project held :=
          ⟨k, t, ht, congrArg Slot.project hslot, hsettled⟩
        exact ⟨_, rfl, hmade.ages hages⟩
      · rcases h.context_of_asks htidy hdevoted hr with ⟨hcontext, hid⟩
        rcases hrel.exists_print hb hctx hid with ⟨f, hprint⟩
        rw [hcontext, hprint] at he
        cases he

theorem Sole.gathering_of_calm (h : w.Sole backends ctx) (hm : w.machine.Formed)
    (hcalm : w.Calm backends sweeps w') {k : Nat} {t' : Task π} {asked : List (Request π)}
    {left : List ProjectId} (ht' : w'.machine.tasks.get? k = some t')
    (hstage' : t'.stage = .gathering asked left) :
    asked.map Request.project ++ left = t'.context.graph.effectiveDependencies t'.project := by
  cases task_of_turn hm hcalm.turn ht' with
  | stays ht => exact h.gathering ht hstage'
  | moved hb ht hmove heq =>
      subst heq
      cases Task.gathering_of_moves hm ht hmove ht' hstage' with
      | entered hstage => rfl
      | stepped hstage hrequest hkeeps =>
          have hgathering := h.gathering ht hstage
          rw [List.map_append] at hgathering ⊢
          rw [← hgathering, List.map_singleton, List.map_singleton, hrequest.context_eq.right]
      | asked hstage hlast =>
          have hgathering := h.gathering ht hstage
          rw [List.map_append, List.append_assoc]
          exact hgathering
  | tookOff hr hjoining heq =>
      subst heq
      cases hstage'

theorem Sole.below_of_calm (h : w.Sole backends ctx) (hctx : ctx.Complete)
    (hrel : Reliable backends environment) (htidy : w.Tidy) (htraced : w.Traced backends)
    (hdevoted : w.Devoted ctx) (hages : w.machine.Ages w'.machine)
    (hcalm : w.Calm backends sweeps w') {k : Nat} {t' : Task π}
    (ht' : w'.machine.tasks.get? k = some t') (hgathered : t'.stage.hasGathered) :
    ∀ c ∈ t'.context.graph.effectiveDependencies t'.project, ∃ a, w'.machine.Made c a := by
  intro c hc
  have hold (hmade : ∃ a, w.machine.Made c a) : ∃ a, w'.machine.Made c a := by
    rcases hmade with ⟨a, ha⟩
    exact ⟨a, ha.ages hages⟩
  cases task_of_turn htidy.formed hcalm.turn ht' with
  | stays ht => exact hold (h.below ht hgathered c hc)
  | moved hb ht hmove heq =>
      subst heq
      have hthrives := h.thrives hctx hrel htidy htraced hdevoted hb ht
      rcases Task.gathered_of_moves htidy.formed ht hthrives hmove ht' hgathered with
        hbefore | ⟨asked, references, hstage, hall⟩
      · exact hold (h.below ht hbefore c hc)
      · have hprojects := h.gathering ht hstage
        rw [List.append_nil] at hprojects
        rcases List.mem_map.mp (hprojects ▸ hc) with ⟨r, hr, rfl⟩
        rcases Task.result?_of_gathered? hall r hr with ⟨found, hresult⟩
        rcases h.answers htraced (.task ht hstage hr) hresult with ⟨found', _, hmade⟩
        exact hold ⟨_, hmade⟩
  | tookOff hr hjoining heq =>
      subst heq
      cases hgathered

theorem Sole.calm (h : w.Sole backends ctx) (hctx : ctx.Complete)
    (hrel : Reliable backends environment) (hattained : w.Attained backends sweeps settings)
    (hcalm : w.Calm backends sweeps w') (hdevoted : w.Devoted ctx) : w'.Sole backends ctx := by
  have horderly := orderly_of_attained hattained
  have htidy := tidy_of_attained hattained
  have htraced := traced_of_attained hattained
  have hages := ages_of_calm horderly.formed hcalm
  constructor
  · refine once_of_calm h.once horderly.formed ?_ ?_ ?_ hcalm
    · exact h.matches hrel htidy htraced hdevoted
    · exact fun hb ht => h.thrives hctx hrel htidy htraced hdevoted hb ht
    · intro c hc u next hstage
      rcases hdevoted c hc with ⟨id, _, hcall⟩
      have hpursues := h.clients c hc id hcall
      rw [hstage] at hpursues
      cases hpursues with
      | draws ha hplan => exact hplan
  · exact h.listed_of_calm hages hdevoted hcalm
  · exact h.clients_of_calm htraced hages hcalm
  · exact h.printed_of_calm hdevoted hcalm
  · exact hcalm.batches.trans h.batches
  · exact h.resolved_of_calm hctx hrel horderly htidy hdevoted hages hcalm
  · exact h.gathering_of_calm horderly.formed hcalm
  · exact h.below_of_calm hctx hrel htidy htraced hdevoted hages hcalm

theorem sole_of_retaining (hctx : ctx.Complete) (hrel : Reliable backends environment)
    (h : (start settings).Retaining backends sweeps w) (hdevoted : w.Devoted ctx) :
    w.Sole backends ctx := by
  induction h with
  | refl => exact sole_start ctx
  | tail hrun hcalm ih =>
      have hbefore := hdevoted.of_turn hcalm.turn
      exact (ih hbefore).calm hctx hrel (Retaining.leads hrun) hcalm hbefore

/-!
# What comes of it
-/

/-- In one context tasks wait for tasks of their own dependencies. -/
theorem Sole.descends (h : w.Sole backends ctx) (htidy : w.Tidy)
    (htraced : w.Traced backends) : w.Descends := by
  intro k t k' ht hwaits
  rcases htraced.of_waitsFor htidy ht hwaits with
    ⟨r, f, t', _, _, ⟨_, hdep⟩, ht', hslot, _⟩
  have hid : t'.project = r.project := congrArg Slot.project hslot
  have hcontext := (h.needed (htidy.tasks ht)).left
  have hcontext' := (h.needed (htidy.tasks ht')).left
  refine ⟨t', ht', ?_⟩
  rw [hcontext', hid, hcontext]
  exact Context.depth_lt (hcontext ▸ hdep)

/-- Where something has been made, all that it needs has been. -/
theorem Sole.made_of_needs (h : w.Sole backends ctx) (htidy : w.Tidy) {root id : ProjectId}
    {held : Held (Artifact π)} (hmade : w.machine.Made root held)
    (hneeds : ctx.graph.Needs root id) : ∃ held, w.machine.Made id held := by
  induction hneeds with
  | refl => exact ⟨held, hmade⟩
  | tail _ hdep ih =>
      rcases ih with ⟨_, k, t, ht, rfl, hsettled⟩
      have hproduced := TaskStage.produced?_of_settled? hsettled
      rw [← (h.needed (htidy.tasks ht)).left] at hdep
      exact h.below ht (TaskStage.hasCalled_of_produced? hproduced).right _ hdep

/-- What comes of calls for the projects of one context. -/
structure CompiledOnce (backends : Set (Backend π)) (ctx : Context) (w : World π) : Prop where
  /-- The backend is called at most once for a project, -/
  once : ∀ id, w.machine.callCount id ≤ 1
  /-- and not at all if no client needs it. -/
  needed : ∀ id, w.machine.callCount id ≠ 0 → w.Needed ctx id
  /-- A project comes to one artifact, and that is what the backend has answered. -/
  unique : ∀ {id held held'}, w.machine.Made id held → w.machine.Made id held' → held' = held
  answered : ∀ {id held}, w.machine.Made id held → w.machine.Answered backends id held.value
  /-- All requests for the project get it. -/
  shared : ∀ {a r result}, w.Asks a r → r.result? w.machine = some result →
    ∃ found, result = .ok found ∧ w.machine.Made r.project found.artifact
  /-- A client that has returned has got it too, and all that it needed was compiled. -/
  returned : ∀ {c root reply}, c ∈ w.clients → c.call.IsFor ctx root →
    c.stage = .returned reply → (∀ id, ctx.graph.Needs root id → w.machine.callCount id = 1) ∧
      ∃ held, w.machine.Made root held ∧ c.call.Replies backends held.value reply
  /-- Once nothing can go on all clients have returned, unless they were cancelled. -/
  finished : ∀ b ∈ backends, (∀ w', ¬ w.Work b w') →
    (∀ {k t}, w.machine.tasks.get? k = some t → t.stage.isEnded) ∧
      ∀ c ∈ w.clients, c.stage = .cancelled ∨ ∃ reply, c.stage = .returned reply
  unharmed : ∀ c ∈ w.clients, c.stage ≠ .panicked

/-- From an empty cache on, whoever asks for what in one context, each project that is
needed is compiled once if compiles succeed and no entry is removed. -/
theorem compiled_once (hrel : Reliable backends environment) {session : SessionId}
    {ws : Workspace} (h : (start settings).Retaining backends sweeps w)
    (hdevoted : w.Devoted (.ofWorkspace session ws)) :
    w.CompiledOnce backends (.ofWorkspace session ws) := by
  have hsole := sole_of_retaining (Context.complete_ofWorkspace session ws) hrel h hdevoted
  have hattained : w.Attained backends sweeps settings := h.leads
  have htidy := tidy_of_attained hattained
  have htraced := traced_of_attained hattained
  have hunharmed : ∀ c ∈ w.clients, c.stage ≠ .panicked := by
    intro c hc hstage
    rcases hdevoted c hc with ⟨id, _, hcall⟩
    have hpursues := hsole.clients c hc id hcall
    rw [hstage] at hpursues
    cases hpursues
  constructor
  · exact fun id => (hsole.once.callCount_le id).left
  · intro id hcalled
    rcases (hsole.once.callCount_le id).right hcalled with ⟨k, t, ht, rfl⟩
    exact (hsole.needed (htidy.tasks ht)).right
  · exact hsole.once.made_unique
  · exact fun hmade => (hsole.once.of_made hmade).right
  · exact fun hr hresult => hsole.answers htraced hr hresult
  · intro c root reply hc hcall hstage
    have hpursues := hsole.clients c hc root hcall
    rw [hstage] at hpursues
    cases hpursues with
    | returned hmade hreply =>
        refine ⟨?_, _, hmade, hreply⟩
        intro id hneeds
        rcases hsole.made_of_needs htidy hmade hneeds with ⟨held, hheld⟩
        exact (hsole.once.of_made hheld).left
  · intro b hb hstuck
    have hfinished : ¬ w.Unfinished := by
      intro hunfinished
      have hopen : w.schedule.gateOpen = true := gateOpen_of_leads hattained
      rcases exists_work (hsole.descends htidy htraced) htraced hopen b hunfinished with
        ⟨w', hwork⟩
      exact hstuck w' hwork
    constructor
    · intro k t ht
      by_contra hgoing
      exact hfinished (.task ht hgoing)
    · intro c hc
      cases hstage : c.stage with
      | returned reply => exact .inr ⟨reply, rfl⟩
      | cancelled => exact .inl rfl
      | panicked => exact absurd hstage (hunharmed c hc)
      | _ =>
          refine absurd (.client hc ?_) hfinished
          rw [hstage]
          exact Bool.false_ne_true
  · exact hunharmed

/-- For one, the second of two clients joins the compile of the first, and both return the
artifact. -/
theorem compiled_once_lone : ∃ w : World (List Document),
    w.CompiledOnce {echo} (lone "old") ∧ w.machine.callCount ⟨"a"⟩ = 1 ∧
      w.clients = List.replicate 2 ⟨.artifact (lone "old") ⟨"a"⟩,
        .returned (.ok (.artifact ⟨⟨"a"⟩, [⟨⟨"/a.arb"⟩, "old"⟩]⟩))⟩ := by
  have hb : echo ∈ ({echo} : Set (Backend (List Document))) := Set.mem_singleton echo
  rcases leads_takeOff (w := .start .default) hb (Machine.free_new _) (print_lone "old") nofun
      nofun with
    ⟨w₁, next, h₁, hclients₁, hm₁, _, hplan⟩
  have hflight₁ : w₁.machine.tables.flights.get? ⟨⟨"s"⟩, ⟨"a"⟩⟩ =
      some ⟨0, loneFingerprint "old"⟩ := by
    rw [hm₁]
    rfl
  rcases leads_joined hb (print_lone "old") (by rw [hm₁]; nofun) hflight₁ with
    ⟨w₂, next', h₂, hclients₂, hm₂, hplan'⟩
  have ht₂ : w₂.machine.tasks.get? 0 =
      some ⟨lone "old", ⟨"a"⟩, loneFingerprint "old", .fresh⟩ := by
    rw [hm₂, hm₁]
    rfl
  rcases leads_compiling hb ht₂ rfl rfl (effectiveDependencies_lone _ _) with
    ⟨w₃, h₃, hclients₃, htables₃, ht₃, _⟩
  have hflight₃ : w₃.machine.tables.flights.get? ⟨⟨"s"⟩, ⟨"a"⟩⟩ =
      some ⟨0, loneFingerprint "old"⟩ := by
    rw [htables₃, hm₂]
    exact hflight₁
  have hrun₃ : (start .default).Retaining {echo} sweeps w₃ := (h₁.trans h₂).trans h₃
  have hopen : w₃.schedule.gateOpen = true := gateOpen_of_leads hrun₃.leads
  rcases leads_stored hb hopen ht₃ rfl rfl hflight₃ with ⟨w₄, h₄, hclients₄, _, ht₄, _⟩
  have hrun₄ : (start .default).Retaining {echo} sweeps w₄ := hrun₃.trans h₄
  have horderly₄ : w₄.machine.Orderly := orderly_of_attained hrun₄.leads
  rcases leads_announced hb horderly₄ ht₄ rfl with ⟨w₅, h₅, hclients₅, hannounced⟩
  obtain ⟨held, hvalue, ht₅⟩ : ∃ held : Held (Artifact (List Document)),
      held.value = ⟨⟨"a"⟩, [⟨⟨"/a.arb"⟩, "old"⟩]⟩ ∧ w₅.machine.tasks.get? 0 =
        some ⟨lone "old", ⟨"a"⟩, loneFingerprint "old", .announced (.ok held)⟩ :=
    ⟨_, rfl, hannounced⟩
  let r : Request (List Document) :=
    ⟨lone "old", ⟨"a"⟩, .waiting (loneFingerprint "old") 0⟩
  have hresult {w : World (List Document)} (hw : w.machine = w₅.machine) :
      r.result? w.machine = some (.ok ⟨loneFingerprint "old", held⟩) := by
    simp only [Request.result?, Machine.outcome?, r, hw, ht₅]
    rfl
  have hrequesting : w₅.clients = [] ++
      ⟨.artifact (lone "old") ⟨"a"⟩, .requesting r next⟩ ::
        [⟨.artifact (lone "old") ⟨"a"⟩, .requesting r next'⟩] := by
    rw [hclients₅, hclients₄, hclients₃, hclients₂, hclients₁]
    rfl
  rcases leads_returned hb hrequesting hplan (hresult rfl) with ⟨w₆, h₆, hclients₆, hm₆⟩
  have hrequesting' : w₆.clients = [_] ++
      ⟨.artifact (lone "old") ⟨"a"⟩, .requesting r next'⟩ :: [] := hclients₆
  rcases leads_returned hb hrequesting' hplan' (hresult hm₆) with ⟨w₇, h₇, hclients₇, _⟩
  rw [hvalue] at hclients₇
  have hclients : w₇.clients = List.replicate 2 ⟨.artifact (lone "old") ⟨"a"⟩,
      .returned (.ok (.artifact ⟨⟨"a"⟩, [⟨⟨"/a.arb"⟩, "old"⟩]⟩))⟩ := hclients₇
  have hrel : Reliable {echo} "" := by
    constructor
    · intro b hb
      rw [Set.mem_singleton_iff.mp hb]
      rfl
    · intro b hb u
      rw [Set.mem_singleton_iff.mp hb]
      exact ⟨_, rfl⟩
  have hdevoted : w₇.Devoted (lone "old") := by
    intro c hc
    rw [hclients] at hc
    rw [List.eq_of_mem_replicate hc]
    exact ⟨⟨"a"⟩, by decide +kernel, rfl, rfl⟩
  have hrun₇ := ((hrun₄.trans h₅).trans h₆).trans h₇
  have honce := compiled_once hrel hrun₇ hdevoted
  have hc : ⟨.artifact (lone "old") ⟨"a"⟩,
      .returned (.ok (.artifact ⟨⟨"a"⟩, [⟨⟨"/a.arb"⟩, "old"⟩]⟩))⟩ ∈ w₇.clients := by
    rw [hclients]
    exact List.mem_cons_self
  exact ⟨w₇, honce, (honce.returned hc ⟨rfl, rfl⟩ rfl).left _ .refl, hclients⟩

end World

end Cache
end Ripple
