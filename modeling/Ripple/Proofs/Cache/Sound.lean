import Ripple.Proofs.Cache.Tasks
import Ripple.Proofs.Cache.Uncached

/-!
# Soundness of the tables and the tasks

Everything that the cache holds goes back to an uncached build: an entry to one
with its fingerprint, a listing to the artifact of one, a flight to a task for
its fingerprint, and what a task or a request has in hand to the build of its own
project. No step of a request or a task breaks this, as long as the streams that
are hashed do not collide.
-/

namespace Ripple
namespace Cache

variable {π : Type}

/-- No two of the streams have one fingerprint. -/
structure CollisionFree (environment : String) (streams : Set (List UInt8)) : Prop where
  injective : streams.InjOn Fingerprint.ofStream
  environment : TextFits environment

section

variable (b : Backend π) (streams : Set (List UInt8))

/-!
# What fingerprints stand for
-/

/-- The fingerprint is that of the project in the context. -/
structure TakenOf (f : Fingerprint) (ctx : Context) (id : ProjectId) : Prop where
  covered : ctx.Covered b.environment streams id
  print : ctx.print b.environment id = .ok f

/-- The fingerprint is that of some build that comes to an artifact. -/
def Stands (f : Fingerprint) (a : Artifact π) : Prop :=
  ∃ ctx id, TakenOf b streams f ctx id ∧ ctx.uncached b id = .ok a

/-- The names of a set are among what is hashed. -/
def Named (s : AnalyzerSet) : Prop :=
  ∃ names, s = .ofNames names ∧ Stream.ofNames (AnalyzerSet.normalize names) ∈ streams ∧
    ListFits TextFits (AnalyzerSet.normalize names)

end

section

variable {b : Backend π} {streams : Set (List UInt8)}

theorem TakenOf.project {f : Fingerprint} {ctx : Context} {id : ProjectId}
    (h : TakenOf b streams f ctx id) : ∃ p, ctx.workspace.project? id = some p := by
  rcases Context.print_eq_ok_iff.mp h.print with ⟨p, _, hp, _⟩
  exact ⟨p, hp⟩

theorem TakenOf.uncached_eq (hfree : CollisionFree b.environment streams) {f : Fingerprint}
    {ctx ctx' : Context} {id id' : ProjectId} (h : TakenOf b streams f ctx id)
    (h' : TakenOf b streams f ctx' id') : ctx.uncached b id = ctx'.uncached b id' :=
  (Context.fold_eq_of_print_eq hfree.injective hfree.environment h.covered h'.covered h.print
    h'.print).right _

theorem TakenOf.depth_eq (hfree : CollisionFree b.environment streams) {f : Fingerprint}
    {ctx ctx' : Context} {id id' : ProjectId} (h : TakenOf b streams f ctx id)
    (h' : TakenOf b streams f ctx' id') : ctx.depth id = ctx'.depth id' :=
  (Context.fold_eq_of_print_eq hfree.injective hfree.environment h.covered h'.covered h.print
    h'.print).right _

theorem Stands.uncached (hfree : CollisionFree b.environment streams) {f : Fingerprint}
    {a : Artifact π} {ctx : Context} {id : ProjectId} (h : Stands b streams f a)
    (ht : TakenOf b streams f ctx id) : ctx.uncached b id = .ok a := by
  rcases h with ⟨ctx', id', ht', ha⟩
  rw [ht.uncached_eq hfree ht', ha]

theorem Named.eq_of_key_eq (hfree : CollisionFree b.environment streams) {s s' : AnalyzerSet}
    (h : Named streams s) (h' : Named streams s') (hkey : s.key = s'.key) : s = s' := by
  rcases h with ⟨names, rfl, hmem, hfits⟩
  rcases h' with ⟨names', rfl, hmem', hfits'⟩
  have hstream := hfree.injective hmem hmem' hkey
  have hnames := (Stream.delimited_ofNames hfits hfits' (congrArg (· ++ []) hstream)).left
  simp only [AnalyzerSet.ofNames, hnames]

end

/-!
# What diagnostics stand for
-/

/-- The diagnostics of an uncached build. -/
def uncachedListing (ctx : Context) (b : Backend π) (id : ProjectId) (s : AnalyzerSet)
    (analyzed : Bool) : Verdict (List Diagnostic) :=
  match ctx.uncached b id with
  | .error es => .error es
  | .ok a =>
      match Plan.collect b a s analyzed with
      | .error e => .error [e]
      | .ok ds => .ok ds

theorem uncachedListing_of_ok {ctx : Context} {b : Backend π} {id : ProjectId}
    {a : Artifact π} (h : ctx.uncached b id = .ok a) (s : AnalyzerSet) (analyzed : Bool) :
    (uncachedListing ctx b id s analyzed).Allows (Plan.collect b a s analyzed) := by
  simp only [uncachedListing, h]
  cases Plan.collect b a s analyzed with
  | ok ds => rfl
  | error e => exact ⟨[e], rfl, List.mem_singleton_self e⟩

/-!
# The invariant
-/

section

variable (b : Backend π) (streams : Set (List UInt8))

/-- The answer to a request agrees with the uncached build. -/
def Answers (ctx : Context) (id : ProjectId) : Except Error (Resolved π) → Prop
  | .ok r =>
      ctx.print b.environment id = .ok r.fingerprint ∧
        ctx.uncached b id = .ok r.artifact.value
  | .error e => (ctx.uncached b id).Allows (.error e)

def RequestStage.Sound (m : Machine π) (ctx : Context) (id : ProjectId) :
    RequestStage π → Prop
  | .fresh => True
  | .found r => Answers b ctx id (.ok r)
  | .missed f | .joining f => ctx.print b.environment id = .ok f
  | .waiting f ticket => ctx.print b.environment id = .ok f ∧ m.HasTask ticket f
  | .settled result => Answers b ctx id result

structure Request.Sound (m : Machine π) (r : Request π) : Prop where
  covered : r.context.Covered b.environment streams r.project
  stage : r.stage.Sound b m r.context r.project

/-- What a task that gathers has asked for and is still to ask for. -/
structure GatheringSound (m : Machine π) (ctx : Context) (id : ProjectId)
    (asked : List (Request π)) (left : List ProjectId) : Prop where
  projects : asked.map Request.project ++ left = ctx.graph.effectiveDependencies id
  context : ∀ r ∈ asked, r.context = ctx
  requests : ∀ r ∈ asked, r.Sound b streams m
  passive : ∀ r ∈ asked.dropLast, ¬ r.isActive

def TaskStage.Sound (m : Machine π) (ctx : Context) (id : ProjectId) : TaskStage π → Prop
  | .fresh => True
  | .gathering asked left => GatheringSound b streams m ctx id asked left
  | .gathered references | .counted references =>
      ctx.uncachedAll b (ctx.graph.effectiveDependencies id) =
        .ok (references.map Held.value)
  | .compiling u => ctx.uncached b id = Context.verdictOf id (b.compile u)
  | .storing a => ctx.uncached b id = .ok a.value
  | .landing o | .clearing o | .announcing o | .announced o | .ended o =>
      (ctx.uncached b id).Allows (o.map Held.value)

structure Task.Sound (m : Machine π) (t : Task π) : Prop where
  takenOf : TakenOf b streams t.fingerprint t.context t.project
  stage : t.stage.Sound b streams m t.context t.project

/-- The listing is that of an artifact with its fingerprint. -/
def Lists (key : ListingKey) (l : Listing) : Prop :=
  ∃ ctx id s, TakenOf b streams l.fingerprint ctx id ∧ Named streams s ∧
    key.analyzers = s.key ∧
    uncachedListing ctx b id s key.analyzed = .ok l.diagnostics.value

structure Machine.Sound (m : Machine π) : Prop where
  formed : m.Formed
  entries : ∀ {slot e}, m.tables.entries.get? slot = some e →
    Stands b streams e.fingerprint e.artifact.value
  flights : ∀ {slot flight}, m.tables.flights.get? slot = some flight →
    m.HasTask flight.ticket flight.fingerprint
  listings : ∀ {key l}, m.tables.listings.get? key = some l → Lists b streams key l
  tasks : ∀ {ticket t}, m.tasks.get? ticket = some t → t.Sound b streams m

end

section

variable {b : Backend π} {streams : Set (List UInt8)}

/-!
# Changes of the machine
-/

theorem RequestStage.Sound.keeps {m m' : Machine π} {ctx : Context} {id : ProjectId}
    {s : RequestStage π} (h : s.Sound b m ctx id) (hkeeps : m.Keeps m') :
    s.Sound b m' ctx id := by
  cases s with
  | waiting f ticket => exact ⟨h.left, h.right.keeps hkeeps⟩
  | _ => exact h

theorem Request.Sound.keeps {m m' : Machine π} {r : Request π} (h : r.Sound b streams m)
    (hkeeps : m.Keeps m') : r.Sound b streams m' :=
  ⟨h.covered, h.stage.keeps hkeeps⟩

theorem TaskStage.Sound.keeps {m m' : Machine π} {ctx : Context} {id : ProjectId}
    {s : TaskStage π} (h : s.Sound b streams m ctx id) (hkeeps : m.Keeps m') :
    s.Sound b streams m' ctx id := by
  cases s with
  | gathering asked left =>
      exact ⟨h.projects, h.context, fun r hr => (h.requests r hr).keeps hkeeps, h.passive⟩
  | _ => exact h

theorem Task.Sound.keeps {m m' : Machine π} {t : Task π} (h : t.Sound b streams m)
    (hkeeps : m.Keeps m') : t.Sound b streams m' :=
  ⟨h.takenOf, h.stage.keeps hkeeps⟩

namespace Machine

theorem Sound.within {m m' : Machine π} (h : m.Sound b streams) (htasks : m'.tasks = m.tasks)
    (hwithin : m.tables.Within m'.tables) : m'.Sound b streams where
  formed := h.formed.of_tasks_eq htasks hwithin.nextTicket
  entries he := by
    rcases hwithin.entries he with ⟨e, he, hf, ha⟩
    exact hf ▸ ha ▸ h.entries he
  flights hflight := (h.flights (hwithin.flights hflight)).keeps (keeps_of_tasks_eq htasks)
  listings hl := h.listings (hwithin.listings hl)
  tasks ht := (h.tasks (htasks ▸ ht)).keeps (keeps_of_tasks_eq htasks)

theorem Sound.setStage {m : Machine π} (h : m.Sound b streams) {ticket : Nat} {t : Task π}
    (ht : m.tasks.get? ticket = some t) {s : TaskStage π}
    (hs : s.Sound b streams m t.context t.project) : (m.setStage ticket s).Sound b streams where
  formed := h.formed.setStage ticket s
  entries := h.entries
  flights hflight := (h.flights hflight).keeps (keeps_setStage m ticket s)
  listings := h.listings
  tasks := by
    intro k t' ht'
    rcases get?_of_setStage ht ht' with ⟨_, rfl⟩ | ⟨_, ht'⟩
    · exact ⟨(h.tasks ht).takenOf, hs.keeps (keeps_setStage m ticket s)⟩
    · exact (h.tasks ht').keeps (keeps_setStage m ticket s)

theorem Sound.store {m : Machine π} (h : m.Sound b streams) {slot : Slot} {f : Fingerprint}
    {a : Held (Artifact π)} (ha : Stands b streams f a.value) :
    (m.updateTables fun tables => tables.store slot f a).Sound b streams where
  formed := h.formed.of_tasks_eq rfl rfl
  entries := by
    intro slot' e he
    simp only [updateTables, Tables.store, Table.get?_insert] at he
    by_cases hslot : slot' = slot
    · rw [if_pos hslot] at he
      cases he
      exact ha
    · rw [if_neg hslot] at he
      exact h.entries he
  flights := h.flights
  listings := h.listings
  tasks ht := (h.tasks ht).keeps (keeps_of_tasks_eq rfl)

theorem Sound.file {m : Machine π} (h : m.Sound b streams) {key : ListingKey} {l : Listing}
    (hl : Lists b streams key l) :
    (m.updateTables fun tables =>
      { tables with listings := tables.listings.insert key l }).Sound b streams where
  formed := h.formed.of_tasks_eq rfl rfl
  entries := h.entries
  flights := h.flights
  listings := by
    intro key' l' hl'
    simp only [updateTables, Table.get?_insert] at hl'
    by_cases hkey : key' = key
    · rw [if_pos hkey] at hl'
      cases hl'
      exact hkey ▸ hl
    · rw [if_neg hkey] at hl'
      exact h.listings hl'
  tasks ht := (h.tasks ht).keeps (keeps_of_tasks_eq rfl)

end Machine

/-!
# Steps of a request
-/

theorem TakenOf.answers {f : Fingerprint} {ctx : Context} {id : ProjectId}
    (h : TakenOf b streams f ctx id) (hfree : CollisionFree b.environment streams)
    {a : Held (Artifact π)} (ha : Stands b streams f a.value) :
    Answers b ctx id (.ok ⟨f, a⟩) :=
  ⟨h.print, ha.uncached hfree h⟩

theorem stands_of_lookUp {m : Machine π} (h : m.Sound b streams) {slot : Slot}
    {f : Fingerprint} {a : Held (Artifact π)} {tables : Tables π}
    (hlook : m.tables.lookUp slot f = some (a, tables)) : Stands b streams f a.value := by
  rcases Tables.lookUp_eq_some_iff.mp hlook with ⟨e, he, rfl, rfl, _⟩
  exact h.entries he

namespace Request

variable {r : Request π} {m : Machine π}

theorem sound_takeOff (h : m.Sound b streams) {f : Fingerprint}
    (hf : TakenOf b streams f r.context r.project) : (r.takeOff f m).2.Sound b streams where
  formed := formed_takeOff h.formed f
  entries := h.entries
  flights := by
    intro slot flight hflight
    simp only [takeOff, Table.get?_insert] at hflight
    by_cases hslot : slot = r.slot
    · rw [if_pos hslot] at hflight
      cases hflight
      exact hasTask_takeOff f
    · rw [if_neg hslot] at hflight
      exact (h.flights hflight).keeps (adds_takeOff h.formed f).keeps
  listings := h.listings
  tasks := by
    intro ticket t ht
    rcases get?_of_takeOff ht with ⟨_, rfl⟩ | ⟨_, ht⟩
    · exact ⟨hf, trivial⟩
    · exact (h.tasks ht).keeps (adds_takeOff h.formed f).keeps

theorem sound_of_moves (hfree : CollisionFree b.environment streams) (hm : m.Sound b streams)
    (hr : r.Sound b streams m) {r' : Request π} {m' : Machine π}
    (hmove : r.Moves b.environment m (r', m')) :
    m'.Sound b streams ∧ r'.Sound b streams m' := by
  have hcov := hr.covered
  have hstaged := hr.stage
  have htaken {f : Fingerprint} (hf : r.context.print b.environment r.project = .ok f) :
      TakenOf b streams f r.context r.project := ⟨hcov, hf⟩
  generalize hnext : (r', m') = next at hmove
  cases hmove with
  | refused hstage hprint =>
      cases hnext
      rw [Context.fingerprint_eq_print] at hprint
      exact ⟨hm, hcov, Context.uncached_of_print_error hprint⟩
  | found hstage hprint hlook =>
      cases hnext
      rw [Context.fingerprint_eq_print] at hprint
      exact ⟨hm.within rfl (Tables.within_lookUp hlook), hcov,
        (htaken hprint).answers hfree (stands_of_lookUp hm hlook)⟩
  | missed hstage hprint =>
      cases hnext
      rw [Context.fingerprint_eq_print] at hprint
      exact ⟨hm, hcov, hprint⟩
  | hit hstage =>
      cases hnext
      rw [hstage] at hstaged
      exact ⟨hm.within rfl (Tables.within_countHit _), hcov, hstaged⟩
  | miss hstage =>
      cases hnext
      rw [hstage] at hstaged
      exact ⟨hm.within rfl (Tables.within_countMiss _), hcov, hstaged⟩
  | joined hstage hflight =>
      cases hnext
      rw [hstage] at hstaged
      exact ⟨hm, hcov, hstaged, hm.flights hflight⟩
  | stored hstage hlook =>
      cases hnext
      rw [hstage] at hstaged
      exact ⟨hm.within rfl (Tables.within_lookUp hlook), hcov,
        (htaken hstaged).answers hfree (stands_of_lookUp hm hlook)⟩
  | tookOff hstage =>
      cases hnext
      rw [hstage] at hstaged
      exact ⟨sound_takeOff hm (htaken hstaged), hcov, hstaged, hasTask_takeOff _⟩

theorem answers_of_result? (hfree : CollisionFree b.environment streams)
    (hm : m.Sound b streams) (hr : r.Sound b streams m) {result : Except Error (Resolved π)}
    (hresult : r.result? m = some result) : Answers b r.context r.project result := by
  unfold result? at hresult
  have hstaged := hr.stage
  cases hstage : r.stage with
  | settled result' =>
      rw [hstage] at hresult hstaged
      cases hresult
      exact hstaged
  | waiting f ticket =>
      rw [hstage] at hresult hstaged
      rcases hstaged with ⟨hprint, t, ht, rfl⟩
      have htask := hm.tasks ht
      have htaken : TakenOf b streams t.fingerprint r.context r.project := ⟨hr.covered, hprint⟩
      have heq := htaken.uncached_eq hfree htask.takenOf
      have houtcome {o : Outcome π} (ho : t.stage.outcome? = some o) :
          (r.context.uncached b r.project).Allows (o.map Held.value) := by
        rw [heq]
        have hsound := htask.stage
        cases hs : t.stage <;> rw [hs] at ho hsound <;> cases ho <;> exact hsound
      simp only [Machine.outcome?, ht, Option.bind_some, Option.map_eq_some_iff] at hresult
      rcases hresult with ⟨o, ho, rfl⟩
      cases o with
      | ok a => exact ⟨hprint, houtcome ho⟩
      | error e => exact houtcome ho
  | _ =>
      rw [hstage] at hresult
      cases hresult

end Request

/-!
# Steps of a task
-/

namespace Task

variable {m m' : Machine π} {ctx : Context}

/-- What gathering has come to, for requests of one context. -/
def Gathers (b : Backend π) (ctx : Context) (ids : List ProjectId) :
    Outcome π ⊕ List (Held (Artifact π)) → Prop
  | .inl o => ∃ id ∈ ids, ∃ e, o = .error e ∧ (ctx.uncached b id).Allows (.error e)
  | .inr references => ctx.uncachedAll b ids = .ok (references.map Held.value)

theorem gathers_of_answers {asked : List (Request π)}
    (hanswers : ∀ r ∈ asked, ∀ result, r.result? m = some result → Answers b ctx r.project result)
    {x : Outcome π ⊕ List (Held (Artifact π))} (hx : gathered? m asked = some x) :
    Gathers b ctx (asked.map Request.project) x := by
  induction asked generalizing x with
  | nil =>
      cases hx
      rfl
  | cons r rest ih =>
      rcases List.forall_mem_cons.mp hanswers with ⟨hr, hrest⟩
      have hinl {o : Outcome π} (ho : gathered? m rest = some (.inl o)) :
          Gathers b ctx ((r :: rest).map Request.project) (.inl o) := by
        rcases ih hrest ho with ⟨id, hid, he⟩
        exact ⟨id, List.mem_cons_of_mem _ hid, he⟩
      simp only [gathered?] at hx
      cases hresult : r.result? m with
      | none =>
          rw [hresult] at hx
          cases hgathered : gathered? m rest with
          | none =>
              rw [hgathered] at hx
              cases hx
          | some y =>
              rw [hgathered] at hx
              cases y <;> cases hx
              exact hinl hgathered
      | some result =>
          have hanswer := hr result hresult
          rw [hresult] at hx
          cases result with
          | error e =>
              cases hx
              exact ⟨r.project, List.mem_cons_self, e, rfl, hanswer⟩
          | ok found =>
              cases hgathered : gathered? m rest with
              | none =>
                  rw [hgathered] at hx
                  cases hx
              | some y =>
                  rw [hgathered] at hx
                  cases y with
                  | inl o =>
                      cases hx
                      exact hinl hgathered
                  | inr more =>
                      cases hx
                      have hmore : ctx.uncachedAll b (rest.map Request.project) =
                          .ok (more.map Held.value) := ih hrest hgathered
                      simp only [Gathers, Context.uncachedAll, List.map_cons, hanswer.right,
                        Verdict.all] at hmore ⊢
                      rw [hmore]
                      rfl

theorem gathers_of_gathered? (hfree : CollisionFree b.environment streams)
    (hm : m.Sound b streams) {asked : List (Request π)}
    (hasked : ∀ r ∈ asked, r.context = ctx ∧ r.Sound b streams m)
    {x : Outcome π ⊕ List (Held (Artifact π))} (hx : gathered? m asked = some x) :
    Gathers b ctx (asked.map Request.project) x := by
  refine gathers_of_answers (fun r hr result hresult => ?_) hx
  rcases hasked r hr with ⟨rfl, hsound⟩
  exact Request.answers_of_result? hfree hm hsound hresult

theorem sound_asked {asked : List (Request π)} {left : List ProjectId} {id c : ProjectId}
    (h : GatheringSound b streams m ctx id asked (c :: left))
    (hcov : ctx.Covered b.environment streams id)
    (hlast : ∀ r ∈ asked.getLast?, ¬ r.isActive) :
    GatheringSound b streams m ctx id (asked ++ [.of ctx c]) left where
  projects := by
    rw [← h.projects, List.map_append, List.append_assoc]
    rfl
  context := by
    intro r hr
    rcases List.mem_append.mp hr with hr | hr
    · exact h.context r hr
    · rw [List.mem_singleton.mp hr]
      rfl
  requests := by
    intro r hr
    rcases List.mem_append.mp hr with hr | hr
    · exact h.requests r hr
    · rw [List.mem_singleton.mp hr]
      have hc : c ∈ ctx.graph.effectiveDependencies id := by
        rw [← h.projects]
        exact List.mem_append_right _ List.mem_cons_self
      exact ⟨hcov.below hc, trivial⟩
  passive := by
    intro r hr
    rw [List.dropLast_concat] at hr
    exact not_active_of_last h.passive hlast r hr

theorem sound_stepped {asked : List (Request π)} {r r' : Request π} {left : List ProjectId}
    {id : ProjectId} (h : GatheringSound b streams m ctx id (asked ++ [r]) left)
    (hkeeps : m.Keeps m') (hr' : r'.Sound b streams m')
    (hsame : r'.context = r.context ∧ r'.project = r.project) :
    GatheringSound b streams m' ctx id (asked ++ [r']) left where
  projects := by
    rw [← h.projects, List.map_append, List.map_append, List.map_singleton,
      List.map_singleton, hsame.right]
  context := by
    intro x hx
    rcases List.mem_append.mp hx with hx | hx
    · exact h.context x (List.mem_append_left _ hx)
    · rw [List.mem_singleton.mp hx, hsame.left]
      exact h.context r (List.mem_append_right _ (List.mem_singleton_self r))
  requests := by
    intro x hx
    rcases List.mem_append.mp hx with hx | hx
    · exact (h.requests x (List.mem_append_left _ hx)).keeps hkeeps
    · exact List.mem_singleton.mp hx ▸ hr'
  passive := by
    intro x hx
    apply h.passive x
    rwa [List.dropLast_concat] at hx ⊢

theorem sound_conclude {m : Machine π} {id : ProjectId} {u : CompileUnit π}
    (h : ctx.uncached b id = Context.verdictOf id (b.compile u)) :
    (ctx.uncached b id).Allows ((conclude id m.tables (b.compile u)).1.map Held.value) ∧
      m.tables.Within (conclude id m.tables (b.compile u)).2 := by
  refine ⟨?_, within_conclude _ _ _⟩
  rw [h]
  cases b.compile u with
  | compiled a => rfl
  | failed cause => exact ⟨_, rfl, List.mem_singleton_self _⟩
  | panicked => exact ⟨_, rfl, List.mem_singleton_self _⟩

theorem sound_of_moves (hfree : CollisionFree b.environment streams) (hm : m.Sound b streams)
    {gateOpen : Bool} {ticket : Nat} {t : Task π} (ht : m.tasks.get? ticket = some t)
    (hmove : t.Moves b gateOpen ticket m m') : m'.Sound b streams := by
  have hsound := hm.tasks ht
  have hcov := hsound.takenOf.covered
  rcases hsound.takenOf.project with ⟨p, hp⟩
  have hstaged := hsound.stage
  -- A step that takes something out of the tables and changes the stage.
  have hset {m₁ : Machine π} {s : TaskStage π} (htasks : m₁.tasks = m.tasks)
      (hwithin : m.tables.Within m₁.tables) (hs : s.Sound b streams m t.context t.project) :
      (m₁.setStage ticket s).Sound b streams :=
    (hm.within htasks hwithin).setStage (htasks ▸ ht)
      (hs.keeps (Machine.keeps_of_tasks_eq htasks))
  cases hmove with
  | unknown hstage hproject =>
      rw [hp] at hproject
      cases hproject
  | entered hstage =>
      exact hm.setStage ht ⟨by simp, by simp, by simp, by simp⟩
  | stepped hstage hactive hmove =>
      rw [hstage] at hstaged
      have hr := hstaged.requests _ (List.mem_append_right _ (List.mem_singleton_self _))
      rcases Request.sound_of_moves hfree hm hr hmove with ⟨hm', hr'⟩
      rcases Request.formed_of_moves hm.formed hmove with ⟨_, hadds⟩
      exact hm'.setStage (hadds ht)
        (sound_stepped hstaged hadds.keeps hr' (Request.Moves.context_eq hmove))
  | failed hstage hgathered =>
      rw [hstage] at hstaged
      rcases gathers_of_gathered? hfree hm
          (fun r hr => ⟨hstaged.context r hr, hstaged.requests r hr⟩) hgathered with
        ⟨c, hc, e, rfl, es, hes, he⟩
      have hdep : c ∈ t.context.graph.effectiveDependencies t.project := by
        rw [← hstaged.projects]
        exact List.mem_append_left _ hc
      rcases Context.uncached_of_below hp hdep hes with ⟨errors, herrors, hsub⟩
      exact hm.setStage ht ⟨errors, herrors, hsub he⟩
  | asked hstage hlast =>
      rw [hstage] at hstaged
      exact hm.setStage ht (sound_asked hstaged hcov hlast)
  | gathered hstage hgathered =>
      rw [hstage] at hstaged
      have hgathers := gathers_of_gathered? hfree hm
        (fun r hr => ⟨hstaged.context r hr, hstaged.requests r hr⟩) hgathered
      have hprojects := hstaged.projects
      rw [List.append_nil] at hprojects
      rw [hprojects] at hgathers
      exact hm.setStage ht hgathers
  | counted hstage =>
      rw [hstage] at hstaged
      exact hset rfl (Tables.within_countCompile _) hstaged
  | called hstage hproject =>
      rw [hstage] at hstaged
      refine hset rfl (.refl _) ?_
      have hall : t.context.uncachedAll b _ = _ := hstaged
      rw [hp] at hproject
      cases hproject
      simp only [TaskStage.Sound]
      rw [Context.uncached_eq, hp, hall]
  | answered hstage hopen =>
      rw [hstage] at hstaged
      rcases sound_conclude (m := m) hstaged with ⟨hallows, hwithin⟩
      exact hset rfl hwithin hallows
  | landed hstage =>
      rw [hstage] at hstaged
      exact hm.setStage ht hstaged
  | crashed hstage =>
      rw [hstage] at hstaged
      exact hm.setStage ht hstaged
  | diverted hstage =>
      rw [hstage] at hstaged
      exact hm.setStage ht hstaged
  | stored hstage =>
      rw [hstage] at hstaged
      have hstands : Stands b streams t.fingerprint _ := ⟨_, _, hsound.takenOf, hstaged⟩
      exact (hm.store hstands).setStage (s := .clearing (.ok _)) ht hstaged
  | cleared hstage =>
      rw [hstage] at hstaged
      exact hset rfl (Tables.within_dropFlight _ _) hstaged
  | announced hstage =>
      rw [hstage] at hstaged
      exact hm.setStage ht hstaged
  | swept hstage =>
      rw [hstage] at hstaged
      exact hset rfl (Tables.within_sweepCapacity _) hstaged

end Task

end

end Cache
end Ripple
