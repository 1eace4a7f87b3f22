import Ripple.Proofs.Cache.Restraint
import Ripple.Proofs.Cache.Single

/-!
# What slots stand for

Requests, tasks, entries and listings are kept apart by sessions and projects, and within a
session by fingerprints. Where equal fingerprints of a project stand for equal builds in its
session, everything that the cache holds for the project comes to what an uncached build
does. So it is if each session keeps to one context, whatever collides, and if nothing
collides, whatever the contexts are.
-/

namespace Ripple
namespace Cache

variable {π : Type} {b : Backend π} {allowed : Set Upkeep} {settings : CacheSettings}

/-!
# Fingerprints within a session
-/

namespace World

variable {w w' : World π} {ctx ctx' : Context} {id : ProjectId} {f : Fingerprint}

/-- Equal fingerprints of a project stand for equal builds within a session. -/
def Unambiguous (b : Backend π) (w : World π) : Prop :=
  ∀ ⦃ctx ctx' id f⦄, w.Wanted ctx id → w.Wanted ctx' id → ctx'.session = ctx.session →
    ctx.print b.environment id = .ok f → ctx'.print b.environment id = .ok f →
      ctx'.uncached b id = ctx.uncached b id ∧ ctx'.depth id = ctx.depth id

/-- Each session keeps to one context. -/
def Steady (w : World π) : Prop :=
  ∀ row ∈ w.printed, ∀ row' ∈ w.printed, row'.1.session = row.1.session → row'.1 = row.1

theorem Wanted.exists_printed (h : w.Wanted ctx id) : ∃ row ∈ w.printed, row.1 = ctx := by
  induction h with
  | printed hrow => exact ⟨_, hrow, rfl⟩
  | dependency _ _ ih => exact ih

theorem Steady.unambiguous (h : w.Steady) : w.Unambiguous b := by
  intro ctx ctx' id f hwanted hwanted' hsession _ _
  rcases hwanted.exists_printed with ⟨row, hrow, rfl⟩
  rcases hwanted'.exists_printed with ⟨row', hrow', rfl⟩
  rw [h row hrow row' hrow' hsession]
  exact ⟨rfl, rfl⟩

theorem Distinct.unambiguous (h : w.Distinct {b}) : w.Unambiguous b := by
  intro ctx ctx' id f hwanted hwanted' _ hprint hprint'
  have hb : b ∈ ({b} : Set (Backend π)) := Set.mem_singleton b
  rcases Context.fold_eq_of_print_eq h.injective (h.environments b hb)
    (h.covered hb hwanted') (h.covered hb hwanted) hprint' hprint with ⟨_, hfold⟩
  exact ⟨hfold _, hfold _⟩

theorem Unambiguous.of_turn (h : w'.Unambiguous b) (hturn : w.Turn {b} allowed w') :
    w.Unambiguous b := by
  intro ctx ctx' id f hwanted hwanted'
  have hsub := printed_subset_of_turn hturn
  exact h (hwanted.mono hsub) (hwanted'.mono hsub)

/-- The fingerprint has been taken for this build of the project. -/
structure Builds (b : Backend π) (w : World π) (f : Fingerprint) (ctx : Context)
    (id : ProjectId) (a : Artifact π) : Prop where
  wanted : w.Wanted ctx id
  print : ctx.print b.environment id = .ok f
  uncached : ctx.uncached b id = .ok a

theorem Builds.mono {a : Artifact π} (h : w.Builds b f ctx id a)
    (hsub : w.printed ⊆ w'.printed) : w'.Builds b f ctx id a :=
  ⟨h.wanted.mono hsub, h.print, h.uncached⟩

theorem Unambiguous.builds_unique (h : w.Unambiguous b) {a a' : Artifact π}
    (ha : w.Builds b f ctx id a) (ha' : w.Builds b f ctx' id a')
    (hsession : ctx'.session = ctx.session) : a' = a := by
  have heq := (h ha.wanted ha'.wanted hsession ha.print ha'.print).left
  rw [ha.uncached, ha'.uncached] at heq
  cases heq
  rfl

end World

theorem Printed.print {f : Fingerprint} {ctx : Context} {id : ProjectId}
    (h : Printed {b} f ctx id) : ctx.print b.environment id = .ok f := by
  rcases h with ⟨b', hb', hprint⟩
  rw [Set.mem_singleton_iff.mp hb'] at hprint
  exact hprint

theorem RequestStage.fingerprint?_of_resolved? {s : RequestStage π} {found : Resolved π}
    (h : s.resolved? = some (.ok found)) : s.fingerprint? = some found.fingerprint := by
  cases s with
  | found r =>
      cases h
      rfl
  | settled result =>
      cases h
      rfl
  | _ => cases h

/-!
# Tasks
-/

/-- What the task has in hand is what the uncached build of its project comes to. -/
def TaskStage.Faithful (b : Backend π) (ctx : Context) (id : ProjectId) : TaskStage π → Prop
  | .fresh => True
  | .gathering asked left =>
      asked.map Request.project ++ left = ctx.graph.effectiveDependencies id
  | .gathered references | .counted references =>
      ctx.uncachedAll b (ctx.graph.effectiveDependencies id) =
        .ok (references.map Held.value)
  | .compiling u => ctx.uncached b id = Context.verdictOf id (b.compile u)
  | .storing a => ctx.uncached b id = .ok a.value
  | .landing o | .clearing o | .announcing o | .announced o | .ended o =>
      (ctx.uncached b id).Allows (o.map Held.value)

theorem TaskStage.Faithful.settled {ctx : Context} {id : ProjectId} {s : TaskStage π}
    (h : s.Faithful b ctx id) {o : Outcome π} (ho : s.settled? = some o) :
    (ctx.uncached b id).Allows (o.map Held.value) := by
  cases s with
  | clearing o' | announcing o' | announced o' | ended o' =>
      cases ho
      exact h
  | _ => cases ho

/-- A task goes on with what is right if it has been answered rightly. -/
theorem Task.faithful_of_moves {gateOpen : Bool} {k : Nat} {t t' : Task π} {m m' : Machine π}
    (hm : m.Formed) (ht : m.tasks.get? k = some t) {p : Project}
    (hp : t.context.workspace.project? t.project = some p)
    (hanswers : ∀ {asked left}, t.stage = .gathering asked left → ∀ r ∈ asked,
      ∀ result, r.result? m = some result → Answers b t.context r.project result)
    (h : t.stage.Faithful b t.context t.project) (hmove : t.Moves b gateOpen k m m')
    (ht' : m'.tasks.get? k = some t') : t'.stage.Faithful b t.context t.project := by
  have hset {m₁ : Machine π} {s : TaskStage π} (ht₁ : m₁.tasks.get? k = some t)
      (ht' : (m₁.setStage k s).tasks.get? k = some t')
      (hs : s.Faithful b t.context t.project) : t'.stage.Faithful b t.context t.project := by
    rw [Machine.get?_setStage_self ht₁] at ht'
    cases ht'
    exact hs
  cases hmove with
  | unknown hstage hproject =>
      rw [hp] at hproject
      cases hproject
  | entered hstage => exact hset ht ht' rfl
  | @stepped asked r r' m₁ left hstage hactive hrequest =>
      rw [hstage] at h
      refine hset ((Request.formed_of_moves hm hrequest).right ht) ht' ?_
      have hprojects : (asked ++ [r]).map Request.project ++ left = _ := h
      rw [List.map_append, List.map_singleton, ← hrequest.context_eq.right,
        ← List.map_singleton, ← List.map_append] at hprojects
      exact hprojects
  | failed hstage hgathered =>
      rw [hstage] at h
      rcases gathers_of_answers (hanswers hstage) hgathered with
        ⟨c, hc, e, rfl, es, hes, he⟩
      have hdep : c ∈ t.context.graph.effectiveDependencies t.project := by
        rw [← h]
        exact List.mem_append_left _ hc
      rcases Context.uncached_of_below hp hdep hes with ⟨errors, herrors, hsub⟩
      exact hset ht ht' ⟨errors, herrors, hsub he⟩
  | @asked asked id left hstage hlast =>
      rw [hstage] at h
      refine hset ht ht' ?_
      have hprojects : asked.map Request.project ++ id :: left = _ := h
      show (asked ++ [Request.of t.context id]).map Request.project ++ left = _
      rw [List.map_append, List.append_assoc]
      exact hprojects
  | gathered hstage hgathered =>
      rw [hstage] at h
      have hgathers := gathers_of_answers (hanswers hstage) hgathered
      have hprojects : _ ++ [] = _ := h
      rw [List.append_nil] at hprojects
      rw [hprojects] at hgathers
      exact hset ht ht' hgathers
  | counted hstage =>
      rw [hstage] at h
      exact hset ht ht' h
  | @called references q hstage hproject =>
      rw [hstage] at h
      refine hset ht ht' ?_
      have hall : t.context.uncachedAll b _ = _ := h
      show t.context.uncached b t.project = _
      rw [Context.uncached_eq, hproject, hall]
  | @answered u hstage hopen =>
      rw [hstage] at h
      exact hset ht ht' (sound_conclude (m := m) h).left
  | landed hstage =>
      rw [hstage] at h
      exact hset ht ht' h
  | crashed hstage =>
      rw [hstage] at h
      exact hset ht ht' h
  | diverted hstage =>
      rw [hstage] at h
      exact hset ht ht' h
  | stored hstage =>
      rw [hstage] at h
      exact hset ht ht' h
  | cleared hstage =>
      rw [hstage] at h
      exact hset ht ht' h
  | announced hstage =>
      rw [hstage] at h
      exact hset ht ht' h
  | swept hstage =>
      rw [hstage] at h
      exact hset ht ht' h

/-!
# Clients
-/

/-- A client that calls for a project makes one request for it, and relays what comes of
it. -/
inductive ClientStage.Relays (b : Backend π) (w : World π) (ctx : Context) (id : ProjectId)
    (call : Call) : ClientStage π → Prop where
  | asks {next : Except Error (Resolved π) → Plan π (Reply π)}
      (hnext : RelaysNext {b} ⟨ctx.session, id⟩ call next) :
      Relays b w ctx id call (.following (.request ctx id next))
  | requests {r : Request π} {next : Except Error (Resolved π) → Plan π (Reply π)}
      (hctx : r.context = ctx) (hid : r.project = id)
      (hnext : RelaysNext {b} ⟨ctx.session, id⟩ call next) :
      Relays b w ctx id call (.requesting r next)
  | relays {plan : Plan π (Reply π)} {f : Fingerprint} {a : Artifact π}
      (hbuilds : w.Builds b f ctx id a)
      (hplan : plan.Relays {b} f a ⟨ctx.session, id⟩ call) :
      Relays b w ctx id call (.following plan)
  | returned {reply : Reply π} {a : Artifact π} (ha : ctx.uncached b id = .ok a)
      (hreply : call.Replies {b} a reply) : Relays b w ctx id call (.returned reply)
  | fails {e : Error} (he : (ctx.uncached b id).Allows (.error e)) :
      Relays b w ctx id call (.following (.done (.error e)))
  | failed {e : Error} (he : (ctx.uncached b id).Allows (.error e)) :
      Relays b w ctx id call (.returned (.error e))
  | cancelled : Relays b w ctx id call .cancelled

theorem ClientStage.Relays.mono {w w' : World π} {ctx : Context} {id : ProjectId} {call : Call}
    {stage : ClientStage π} (h : stage.Relays b w ctx id call)
    (hsub : w.printed ⊆ w'.printed) : stage.Relays b w' ctx id call := by
  cases h with
  | asks hnext => exact .asks hnext
  | requests hctx hid hnext => exact .requests hctx hid hnext
  | relays hbuilds hplan => exact .relays (hbuilds.mono hsub) hplan
  | returned ha hreply => exact .returned ha hreply
  | fails he => exact .fails he
  | failed he => exact .failed he
  | cancelled => exact .cancelled

/-- A call that is for no artifact and no diagnostics files nothing. -/
theorem Call.files_nothing {call : Call} (b : Backend π)
    (h : ∀ ctx id, ¬ call.IsFor ctx id) :
    (call.plan b).KeepsTo (fun _ => True) fun _ => False := by
  cases call with
  | artifact ctx id => exact absurd ⟨rfl, rfl⟩ (h ctx id)
  | diagnostics ctx id names analyzed => exact absurd ⟨rfl, rfl⟩ (h ctx id)
  | speculate ctx id overrides =>
      exact Plan.keepsTo_bind (Plan.keepsTo_speculate trivial id overrides) fun _ => trivial
  | speculativeDiagnostics ctx id overrides names analyzed =>
      exact Plan.keepsTo_bind
        (Plan.keepsTo_speculativeDiagnostics trivial b id overrides _ analyzed) fun _ => trivial

/-!
# The invariant
-/

namespace World

variable {w w' : World π}

/-- The listing is that of a build that its fingerprint has been taken for. -/
def Accounts (b : Backend π) (w : World π) (key : ListingKey) (l : Listing) : Prop :=
  ∃ ctx a, ctx.session = key.slot.session ∧
    w.Builds b l.fingerprint ctx key.slot.project a ∧
      ListedFrom {b} a key l.diagnostics.value

/-- Whatever is under way or stored comes to what uncached builds do. -/
structure Faithful (b : Backend π) (w : World π) : Prop where
  tasks : ∀ {k t}, w.machine.tasks.get? k = some t → t.stage.Faithful b t.context t.project
  resolved : ∀ {a r x}, w.Asks a r → r.stage.resolved? = some x →
    Answers b r.context r.project x
  listings : ∀ {key l}, w.machine.tables.listings.get? key = some l → w.Accounts b key l
  calls : ∀ c ∈ w.clients, ∀ {ctx id}, c.call.IsFor ctx id →
    c.stage.Relays b w ctx id c.call
  others : ∀ c ∈ w.clients, (∀ ctx id, ¬ c.call.IsFor ctx id) →
    c.stage.KeepsTo (fun _ => True) fun _ => False

theorem faithful_start (b : Backend π) (settings : CacheSettings) :
    (start settings : World π).Faithful b := by
  have hnone {a : Asker} {r : Request π} (hr : (start settings : World π).Asks a r) : False := by
    cases hr with
    | client hc hstage => cases hc
    | batch hbatch hr => cases hbatch
    | task ht hstage hr => cases ht
  exact ⟨nofun, fun hr => (hnone hr).elim, nofun, nofun, nofun⟩

/-- A task for the slot and the fingerprint of a project has built this project. -/
theorem Unambiguous.answers_of_settled (hun : w.Unambiguous b) {t : Task π}
    (ht : t.stage.Faithful b t.context t.project) (hwanted' : w.Wanted t.context t.project)
    (hprint' : t.context.print b.environment t.project = .ok t.fingerprint) {o : Outcome π}
    (ho : t.stage.settled? = some o) {ctx : Context} {id : ProjectId}
    (hwanted : w.Wanted ctx id) (hslot : t.slot = ⟨ctx.session, id⟩)
    (hprint : ctx.print b.environment id = .ok t.fingerprint) :
    Answers b ctx id (o.map fun a => ⟨t.fingerprint, a⟩) := by
  have hallows := ht.settled ho
  have hid : t.project = id := congrArg Slot.project hslot
  rw [hid] at hallows hwanted' hprint'
  rw [(hun hwanted hwanted' (congrArg Slot.session hslot) hprint hprint').left] at hallows
  cases o with
  | ok a => exact ⟨hprint, hallows⟩
  | error e => exact hallows

/-- Every result is what the uncached build comes to. -/
theorem Faithful.answers (h : w.Faithful b) (htidy : w.Tidy) (htraced : w.Traced {b})
    (hun : w.Unambiguous b) {a : Asker} {r : Request π} (hr : w.Asks a r)
    {result : Except Error (Resolved π)} (hresult : r.result? w.machine = some result) :
    w.Wanted r.context r.project ∧ Answers b r.context r.project result := by
  unfold Request.result? at hresult
  cases hstage : r.stage with
  | settled result' =>
      rw [hstage] at hresult
      cases hresult
      have hfresh : r.stage ≠ .fresh := by simp [hstage]
      exact ⟨htidy.wanted hr fun _ => hfresh, h.resolved hr
        (congrArg RequestStage.resolved? hstage)⟩
  | waiting f k =>
      rw [hstage] at hresult
      rcases htraced.awaited hr hstage with ⟨t, ht, hslot, rfl⟩
      rcases Option.map_eq_some_iff.mp hresult with ⟨o, ho, rfl⟩
      have houtcome : t.stage.outcome? = some o := by
        simpa [Machine.outcome?, ht] using ho
      have hsettled := (TaskStage.settled?_of_outcome? houtcome).left
      have hfresh : r.stage ≠ .fresh := by simp [hstage]
      have hwanted := htidy.wanted hr fun _ => hfresh
      have hprint := (htraced.requests hr _ (congrArg RequestStage.fingerprint? hstage)).print
      exact ⟨hwanted, hun.answers_of_settled (h.tasks ht) (htidy.tasks ht)
        (htraced.tasks ht).print hsettled hwanted hslot hprint⟩
  | _ =>
      rw [hstage] at hresult
      cases hresult

/-!
# Turns
-/

theorem Faithful.task_of_turn (h : w.Faithful b) (htidy : w.Tidy) (htraced : w.Traced {b})
    (hun : w.Unambiguous b) (hturn : w.Turn {b} allowed w') {k : Nat} {t' : Task π}
    (ht' : w'.machine.tasks.get? k = some t') : t'.stage.Faithful b t'.context t'.project := by
  cases World.task_of_turn htidy.formed hturn ht' with
  | stays ht => exact h.tasks ht
  | @moved b' gateOpen t s hb ht hmove heq =>
      cases Set.mem_singleton_iff.mp hb
      rcases Context.print_eq_ok_iff.mp ((htraced.tasks ht).print) with ⟨p, _, hp, _⟩
      have hfaithful := Task.faithful_of_moves htidy.formed ht hp ?_ (h.tasks ht) hmove ht'
      · rw [heq] at hfaithful ⊢
        exact hfaithful
      · intro asked left hstage r hr result hresult
        have hasks : w.Asks (.task k) r := .task ht hstage hr
        have hanswers := (h.answers htidy htraced hun hasks hresult).right
        rw [(htidy.requests hasks ht).left] at hanswers
        exact hanswers
  | tookOff hr hjoining heq =>
      rw [heq]
      trivial

theorem Faithful.resolved_of_turn (h : w.Faithful b) (horderly : w.machine.Orderly)
    (htraced : w.Traced {b}) (hturn : w.Turn {b} allowed w') (htidy : w.Tidy)
    (htidy' : w'.Tidy) (htraced' : w'.Traced {b}) (hun : w'.Unambiguous b) {a : Asker}
    {r' : Request π} {x : Except Error (Resolved π)} (hr' : w'.Asks a r')
    (hx : r'.stage.resolved? = some x) : Answers b r'.context r'.project x := by
  cases comes_of_turn horderly.formed hturn hr' with
  | stays hr => exact h.resolved hr hx
  | made hstage horigin =>
      rw [hstage] at hx
      cases hx
  | @moved b' r m hb hr hprinted hmove hkeeps =>
      cases Set.mem_singleton_iff.mp hb
      rcases hmove.context_eq with ⟨hctx, hid⟩
      rcases Request.resolved_of_moves hmove hx with hx | ⟨f, held, rfl, hstored⟩ | ⟨e, rfl, he⟩
      · rw [hctx, hid]
        exact h.resolved hr hx
      · rcases horderly.entries hstored with ⟨k, t, ht, hslot, rfl, hsettled, _⟩
        have hprint := (htraced'.requests hr' _ (RequestStage.fingerprint?_of_resolved? hx)).print
        have hwanted := htidy'.wanted hr' fun _ hfresh => by
          rw [hfresh] at hx
          cases hx
        rw [hctx, hid] at hprint hwanted ⊢
        exact hun.answers_of_settled (h.tasks ht)
          ((htidy.tasks ht).mono (printed_subset_of_turn hturn)) (htraced.tasks ht).print
          hsettled hwanted hslot hprint
      · rw [hctx, hid]
        exact Context.uncached_of_print_error he

/-- A client that calls for a project goes on with what is right. -/
theorem Faithful.relays_of_moves (h : w.Faithful b) (htidy : w.Tidy) (htraced : w.Traced {b})
    (hun : w.Unambiguous b) (hsub : w.printed ⊆ w'.printed) {c : Client π}
    (hc : c ∈ w.clients) {ctx : Context} {id : ProjectId} (hcall : c.call.IsFor ctx id)
    {stage' : ClientStage π} {s' : Schedule π} (hmove : c.stage.Moves b w.schedule stage' s') :
    stage'.Relays b w' ctx id c.call := by
  have hrelays := h.calls c hc hcall
  generalize hstage : c.stage = stage at hrelays hmove
  cases hrelays with
  | asks hnext =>
      cases hmove with
      | asks => exact .requests rfl rfl hnext
  | @requests r next hctx hid hnext =>
      cases hmove with
      | goesOn hactive =>
          rcases (Request.moves_of_step b.environment w.machine hactive).context_eq with
            ⟨hctx', hid'⟩
          exact .requests (hctx'.trans hctx) (hid'.trans hid) hnext
      | @hears _ _ _ result hresult =>
          rcases h.answers htidy htraced hun (.client hc hstage) hresult with
            ⟨hwanted, hanswers⟩
          rw [hctx, hid] at hwanted hanswers
          cases result with
          | ok found =>
              exact .relays ⟨hwanted.mono hsub, hanswers.left, hanswers.right⟩ (hnext.ok found)
          | error e =>
              rw [hnext.error]
              exact .fails hanswers
  | relays hbuilds hplan =>
      cases hmove with
      | asks => exact hplan.elim
      | compiles => exact hplan.elim
      | @consults _ key next =>
          rcases hplan with ⟨hslot, hnext⟩
          refine .relays (hbuilds.mono hsub) (hnext _ ?_)
          intro l hl hf
          rcases h.listings hl with ⟨ctx', a', hsession, hbuilds', hfrom⟩
          rw [hf, hslot] at hbuilds'
          rw [hslot] at hsession
          rw [hun.builds_unique hbuilds hbuilds' hsession] at hfrom
          exact hfrom
      | files => exact .relays (hbuilds.mono hsub) (hplan.right.right.right _)
      | returns => exact .returned hbuilds.uncached hplan
  | fails he =>
      cases hmove with
      | returns => exact .failed he
  | returned ha hreply => cases hmove
  | failed he => cases hmove
  | cancelled => cases hmove

theorem Faithful.calls_of_turn (h : w.Faithful b) (htidy : w.Tidy) (htraced : w.Traced {b})
    (hun : w.Unambiguous b) (hturn : w.Turn {b} allowed w') {c' : Client π}
    (hc' : c' ∈ w'.clients) {ctx : Context} {id : ProjectId} (hcall : c'.call.IsFor ctx id) :
    c'.stage.Relays b w' ctx id c'.call := by
  have hsub := printed_subset_of_turn hturn
  cases client_of_turn hturn hc' with
  | stays hc => exact (h.calls c' hc hcall).mono hsub
  | @moved b' c hb hc hsame hmove =>
      cases Set.mem_singleton_iff.mp hb
      rw [hsame] at hcall ⊢
      exact h.relays_of_moves htidy htraced hun hsub hc hcall hmove
  | calls hb hstage =>
      rcases Call.relays_of_isFor hb hcall with ⟨next, hplan, hnext⟩
      rw [hstage, hplan]
      exact .asks hnext
  | cancelled hstage =>
      rw [hstage]
      exact .cancelled

theorem Faithful.others_of_turn (h : w.Faithful b) (hturn : w.Turn {b} allowed w')
    {c' : Client π} (hc' : c' ∈ w'.clients) (hcall : ∀ ctx id, ¬ c'.call.IsFor ctx id) :
    c'.stage.KeepsTo (fun _ => True) fun _ => False := by
  cases client_of_turn hturn hc' with
  | stays hc => exact h.others c' hc hcall
  | moved hb hc hsame hmove => exact (h.others _ hc (hsame ▸ hcall)).of_moves hmove
  | @calls b' hb hstage =>
      rw [hstage]
      exact Call.files_nothing b' hcall
  | cancelled hstage =>
      rw [hstage]
      trivial

theorem Faithful.listing_of_turn (h : w.Faithful b) (hturn : w.Turn {b} allowed w')
    {key : ListingKey} {l : Listing} (hl : w'.machine.tables.listings.get? key = some l) :
    w'.Accounts b key l := by
  have hsub := printed_subset_of_turn hturn
  rcases World.listing_of_turn hturn hl with hl | ⟨c, hc, next, hstage⟩
  · rcases h.listings hl with ⟨ctx, a, hsession, hbuilds, hfrom⟩
    exact ⟨ctx, a, hsession, hbuilds.mono hsub, hfrom⟩
  · by_cases hcall : ∃ ctx id, c.call.IsFor ctx id
    · rcases hcall with ⟨ctx, id, hcall⟩
      have hrelays := h.calls c hc hcall
      rw [hstage] at hrelays
      cases hrelays with
      | relays hbuilds hplan =>
          rcases hplan with ⟨hslot, hf, hfrom, _⟩
          refine ⟨ctx, _, ?_, ?_, hfrom⟩
          · rw [hslot]
          · rw [hslot, hf]
            exact hbuilds.mono hsub
    · have hothers := h.others c hc fun ctx id hfor => hcall ⟨ctx, id, hfor⟩
      rw [hstage] at hothers
      exact hothers.left.elim

theorem faithful_of_attained (h : w.Attained {b} allowed settings) (hun : w.Unambiguous b) :
    w.Faithful b := by
  induction h with
  | refl => exact faithful_start b settings
  | @tail w w' hreach hturn ih =>
      have hbefore := hun.of_turn hturn
      have hfaithful := ih hbefore
      have horderly := orderly_of_attained hreach
      have htidy := tidy_of_attained hreach
      have htraced := traced_of_attained hreach
      constructor
      · exact fun ht => hfaithful.task_of_turn htidy htraced hbefore hturn ht
      · exact fun hr hx => hfaithful.resolved_of_turn horderly htraced hturn htidy
          (htidy.turn hturn) (htraced.turn horderly hturn) hun hr hx
      · exact fun hl => hfaithful.listing_of_turn hturn hl
      · exact fun c hc _ _ hcall => hfaithful.calls_of_turn htidy htraced hbefore hturn hc hcall
      · exact fun c hc hcall => hfaithful.others_of_turn hturn hc hcall

/-!
# What callers get
-/

theorem Unambiguous.descends (h : w.Unambiguous b) (htidy : w.Tidy) (htraced : w.Traced {b}) :
    w.Descends := by
  intro k t k' ht hwaits
  rcases htraced.of_waitsFor htidy ht hwaits with
    ⟨r, f, t', hasks, hwaiting, ⟨hctx, hdep⟩, ht', hslot, rfl⟩
  have hid : t'.project = r.project := congrArg Slot.project hslot
  have hwanted := htidy.wanted hasks nofun
  have hwanted' := htidy.tasks ht'
  have hprint := (htraced.requests hasks _ (congrArg RequestStage.fingerprint? hwaiting)).print
  have hprint' := (htraced.tasks ht').print
  rw [hid] at hwanted' hprint'
  have heq := (h hwanted hwanted' (congrArg Slot.session hslot) hprint hprint').right
  refine ⟨t', ht', ?_⟩
  rw [hid, heq, hctx]
  exact Context.depth_lt hdep

/-- A client that calls for a project with an uncached build gets what comes of it. -/
theorem serves_of_unambiguous (h : w.Attained {b} allowed settings) (hun : w.Unambiguous b)
    {c : Client π} (hc : c ∈ w.clients) {ctx : Context} {id : ProjectId} {a : Artifact π}
    (hcall : c.call.IsFor ctx id) (ha : ctx.uncached b id = .ok a) :
    w.Serves b c fun reply => c.call.Replies {b} a reply := by
  have hrelays := (faithful_of_attained h hun).calls c hc hcall
  constructor
  · intro hstage
    rw [hstage] at hrelays
    cases hrelays
  · intro reply hstage
    rw [hstage] at hrelays
    cases hrelays with
    | returned ha' hreply =>
        rw [ha] at ha'
        cases ha'
        exact hreply
    | failed he =>
        rcases he with ⟨es, hes, _⟩
        rw [ha] at hes
        cases hes
  · intro hstuck
    have htraced := traced_of_attained h
    have hdescends := hun.descends (tidy_of_attained h) htraced
    have hopen : w.schedule.gateOpen = true := gateOpen_of_leads h
    have hout : c.stage.isOut := by
      by_contra hin
      rcases exists_work hdescends htraced hopen b (.client hc hin) with ⟨w', hwork⟩
      exact hstuck w' hwork
    generalize c.stage = stage at hrelays hout ⊢
    cases hrelays with
    | returned ha hreply => exact .inr ⟨_, rfl⟩
    | failed he => exact .inr ⟨_, rfl⟩
    | cancelled => exact .inl rfl
    | _ => cases hout

/-!
# A single caller
-/

theorem AsksOnce.steady {ctx : Context} {id : ProjectId} (h : w.AsksOnce ctx id) :
    w.Steady := by
  intro row hrow row' hrow' _
  rw [h.printed row hrow, h.printed row' hrow']

/-- A client that is alone comes to its end. -/
theorem AsksOnce.exists_finished {ctx : Context} {id : ProjectId} (honce : w.AsksOnce ctx id)
    (h : w.Attained {b} allowed settings) (hformed : w.schedule.Formed) :
    ∃ w' : World π, w'.Attained {b} allowed settings ∧ w'.AsksOnce ctx id ∧
      ¬ w'.Unfinished := by
  have hwf := (wellFounded_less (π := π)).onFun (f := World.measure)
  induction w using hwf.induction with
  | _ w ih =>
      by_cases hunfinished : w.Unfinished
      · have htraced := traced_of_attained h
        have hdescends := honce.steady.unambiguous.descends (tidy_of_attained h) htraced
        have hopen : w.schedule.gateOpen = true := gateOpen_of_leads h
        rcases exists_work_sparing (orderly_of_attained h) hdescends htraced hopen b
            hunfinished with ⟨w', hwork, hspares⟩
        exact ih w' (less_of_work hformed hwork) (honce.work hwork)
          (h.tail (.work (Set.mem_singleton b) hwork hspares)) (formed_of_work hformed hwork)
      · exact ⟨w, h, honce, hunfinished⟩

/-- What the client that is alone has called for. -/
theorem exists_asksOnce (b : Backend π) (allowed : Set Upkeep) (settings : CacheSettings)
    (ctx : Context) (id : ProjectId) : ∃ w : World π, w.Attained {b} allowed settings ∧
      w.AsksOnce ctx id ∧ ¬ w.Unfinished := by
  let call : Call := .artifact ctx id
  let asked : World π :=
    ⟨.new settings true, [⟨call, .following (call.plan b)⟩], [], []⟩
  have honce : asked.AsksOnce ctx id :=
    ⟨rfl, nofun, _, rfl, rfl, rfl, fun result => by cases result <;> exact ⟨_, rfl⟩⟩
  have hattained : asked.Attained {b} allowed settings :=
    .single (.aside (Set.mem_singleton b) (.call call) rfl)
  exact honce.exists_finished hattained ⟨Machine.formed_new settings, List.nodup_nil⟩

end World
end Cache
end Ripple
