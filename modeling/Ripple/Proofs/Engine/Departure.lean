import Ripple.Engine.Edits
import Ripple.Engine.Lifecycle
import Ripple.Proofs.Cache.Script

/-!
# The end of a session

A session is taken out first, and then the cache gives up its flights, its entries and
its listings, one kind after another. Operations that have found the session before go on
all the while: they make the calls that they have come for, and tasks ask for what they
need. Nothing that was there is left, but whoever comes late may leave something.
-/

namespace Ripple
namespace Engine

open Cache

variable {π : Type}

/-!
# Operations and their calls
-/

/-- What an operation does with the cache, once it has found its session. -/
inductive Errand where
  | single (ctx : Context) (id : ProjectId) (names : List String) (analyzed : Bool)
  /-- The diagnostics of all projects, one after another. -/
  | report (ctx : Context) (names : List String) (analyzed : Bool)
  /-- What edits do to the projects below them, all side by side. -/
  | impacts (ctx : Context) (overrides : Overrides) (edited : List ProjectId)
      (names : List String) (analyzed : Bool)

/-- Calls that are made one after another. -/
structure Lane where
  /-- The client that is at work on the last call made. -/
  client : Option Nat
  left : List Call

namespace Errand

def session : Errand → SessionId
  | .single ctx _ _ _ | .report ctx _ _ | .impacts ctx _ _ _ _ => ctx.session

def calls : Errand → List (List Call)
  | .single ctx id names analyzed => [[.diagnostics ctx id names analyzed]]
  | .report ctx names analyzed =>
      [ctx.graph.topologicalOrder.map fun id => .diagnostics ctx id names analyzed]
  | .impacts ctx overrides edited names analyzed =>
      (affected ctx.graph edited).map fun id =>
        [.diagnostics ctx id names analyzed,
          .speculativeDiagnostics ctx id overrides names analyzed]

def lanes (errand : Errand) : List Lane :=
  errand.calls.map fun calls => ⟨none, calls⟩

theorem session_of_mem {errand : Errand} {calls : List Call} (hcalls : calls ∈ errand.calls)
    {call : Call} (hcall : call ∈ calls) : call.session = errand.session := by
  cases errand with
  | single ctx id names analyzed =>
      rw [List.mem_singleton.mp hcalls] at hcall
      rw [List.mem_singleton.mp hcall]
      rfl
  | report ctx names analyzed =>
      rw [List.mem_singleton.mp hcalls] at hcall
      rcases List.mem_map.mp hcall with ⟨id, _, rfl⟩
      rfl
  | impacts ctx overrides edited names analyzed =>
      rcases List.mem_map.mp hcalls with ⟨id, _, rfl⟩
      rcases List.mem_pair.mp hcall with rfl | rfl
      · rfl
      · rfl

end Errand

/-- The impact on a project is worked out from the replies to its two calls. -/
theorem exists_impactPlan_eq (id : ProjectId) : ∃ judge : Reply π → Reply π → Impact,
    ∀ (b : Backend π) ctx overrides names analyzed,
      impactPlan b ctx overrides (.ofNames names) analyzed id =
        ((Call.diagnostics ctx id names analyzed).plan b).bind fun before =>
          ((Call.speculativeDiagnostics ctx id overrides names analyzed).plan b).bind fun after =>
            .done (judge before after) := by
  let listing : Product π → List Diagnostic
    | .listing ds => ds
    | .artifact _ => []
  refine ⟨fun before after =>
    impactOf id (before.map fun p => ⟨0, listing p⟩) (after.map listing), ?_⟩
  intro b ctx overrides names analyzed
  simp only [Call.plan, Plan.bind_bind]
  refine congrArg (Plan.bind _) (funext fun before => ?_)
  refine congrArg (Plan.bind _) (funext fun after => ?_)
  cases before <;> cases after <;> rfl

/-- A session that is removed at once is removed in the same rounds. -/
theorem tables_remove {σ : Type} (s : Session) (e : Engine σ π) :
    (e.remove s).schedule.tables = (Scope.session s.id).invalidate e.schedule.tables := by
  unfold remove abortPrewarm
  cases s.prewarm <;> rfl

/-!
# The stay of a session
-/

/-- How far the end of a session has come. -/
inductive Stay where
  | registered
  /-- Taken out, with everything still in the cache. -/
  | leaving
  /-- Its flights have been removed. -/
  | grounded
  /-- Its entries as well. -/
  | emptied
  | ended
  deriving DecidableEq

/-- The world in which a session stays and ends, with the operations under way. -/
structure Tenancy (π : Type) where
  world : World π
  lanes : List Lane
  /-- Its leaves are still to be compiled ahead. -/
  prewarmDue : Bool
  stay : Stay

/-- The last call has been answered, or none has been made yet. -/
def Lane.isFree (clients : List (Client π)) (lane : Lane) : Bool :=
  match lane.client with
  | none => true
  | some i => (clients[i]?.bind fun c => c.stage.reply?).isSome

namespace Tenancy

def updateTables (e : Tenancy π) (f : Tables π → Tables π) : Tenancy π :=
  { e with world := { e.world with schedule := e.world.schedule.updateTables f } }

abbrev machine (e : Tenancy π) : Machine π := e.world.machine

def start (settings : CacheSettings) (prewarmDue : Bool) : Tenancy π :=
  ⟨.start settings, [], prewarmDue, .registered⟩

/-- The lane at a place makes a call. -/
def called (e : Tenancy π) (b : Backend π) (i : Nat) (call : Call) (left : List Call) :
    Tenancy π :=
  { e with
    world :=
      { e.world with
        clients := e.world.clients ++ [⟨call, .following (call.plan b)⟩]
        named := call.named ++ e.world.named }
    lanes := e.lanes.set i ⟨some e.world.clients.length, left⟩ }

/-- The leaves of a workspace are compiled ahead. -/
def warmed (e : Tenancy π) (s : SessionId) (ctx : Context) : Tenancy π :=
  let rows := ctx.graph.leaves.map fun id => (ctx, id)
  { e with
    world :=
      { e.world with
        schedule := (e.world.schedule.startBatch (rows.map fun row => .of row.1 row.2)).2
        printed := rows ++ e.world.printed }
    prewarmDue := e.prewarmDue && ctx.session ≠ s }

/-- Anything that can happen next around the session. -/
inductive Step (backends : Set (Backend π)) (s : SessionId) (e : Tenancy π) :
    Tenancy π → Prop where
  /-- What is under way goes on, or is given up. -/
  | goesOn {w : World π} (hturn : e.world.Turn backends sweeps w)
      (hstarts : e.world.StartsNothing w) : Step backends s e { e with world := w }
  /-- An operation finds its session. -/
  | visits (errand : Errand) (hfound : errand.session = s → e.stay = .registered) :
      Step backends s e { e with lanes := e.lanes ++ errand.lanes }
  /-- An operation makes its next call. -/
  | calls {b : Backend π} (hb : b ∈ backends) {i : Nat} {lane : Lane} {call : Call}
      {left : List Call} (hlane : e.lanes[i]? = some lane) (hleft : lane.left = call :: left)
      (hfree : lane.isFree e.world.clients) :
      Step backends s e (e.called b i call left)
  | warms {b : Backend π} (hb : b ∈ backends) (ctx : Context)
      (hdue : ctx.session = s → e.prewarmDue) :
      Step backends s e (e.warmed s ctx)
  | leaves (hstay : e.stay = .registered) : Step backends s e { e with stay := .leaving }
  | grounds (hstay : e.stay = .leaving)
      (hspares : e.machine.Spares (e.machine.updateTables (Scope.session s).dropFlights)) :
      Step backends s e { e.updateTables (Scope.session s).dropFlights with stay := .grounded }
  | empties (hstay : e.stay = .grounded) :
      Step backends s e { e.updateTables (Scope.session s).dropEntries with stay := .emptied }
  | finishes (hstay : e.stay = .emptied) :
      Step backends s e { e.updateTables (Scope.session s).dropListings with stay := .ended }

/-- One step after another. -/
def Leads (backends : Set (Backend π)) (s : SessionId) : Tenancy π → Tenancy π → Prop :=
  Relation.ReflTransGen (Step backends s)

/-- What can come about around a session with a fresh cache. -/
def Attained (backends : Set (Backend π)) (settings : CacheSettings) (s : SessionId)
    (e : Tenancy π) : Prop :=
  ∃ prewarmDue, Leads backends s (start settings prewarmDue) e

/-- A client is about to file diagnostics under the key. -/
def Files (e : Tenancy π) (key : ListingKey) (ds : List Diagnostic) : Prop :=
  ∃ c ∈ e.world.clients, ∃ f next, c.stage = .following (.file key f ds next)

/-!
# What may still come
-/

/-- The session cannot be found any more, and whatever is under way asks for artifacts and
files listings of some sessions only. -/
structure KeepsTo (s : SessionId) (asks files : SessionId → Prop) (e : Tenancy π) : Prop where
  away : e.stay ≠ .registered
  world : e.world.KeepsTo asks files
  lanes : ∀ lane ∈ e.lanes, ∀ call ∈ lane.left, asks call.session ∧ files call.session
  due : e.prewarmDue → asks s

/-- Nobody will ask for an artifact of the session. -/
def AsksNothing (s : SessionId) (e : Tenancy π) : Prop :=
  e.KeepsTo s (· ≠ s) fun _ => True

/-- Nobody will file a listing of the session. -/
def FilesNothing (s : SessionId) (e : Tenancy π) : Prop :=
  e.KeepsTo s (fun _ => True) (· ≠ s)

section

variable {backends : Set (Backend π)} {settings : CacheSettings} {s : SessionId}
  {asks files : SessionId → Prop} {e e' : Tenancy π}

theorem KeepsTo.step (h : e.KeepsTo s asks files) (hothers : ∀ s' ≠ s, asks s' ∧ files s')
    (hformed : e.machine.Formed) (hstep : Step backends s e e') : e'.KeepsTo s asks files := by
  cases hstep with
  | goesOn hturn hstarts => exact ⟨h.away, h.world.turn hformed hturn hstarts, h.lanes, h.due⟩
  | visits errand hfound =>
      refine ⟨h.away, h.world, fun lane hlane call hcall => ?_, h.due⟩
      rcases List.mem_append.mp hlane with hlane | hlane
      · exact h.lanes lane hlane call hcall
      · rcases List.mem_map.mp hlane with ⟨calls, hcalls, rfl⟩
        rw [Errand.session_of_mem hcalls hcall]
        exact hothers _ fun hsession => h.away (hfound hsession)
  | @calls b hb i lane call left hlane hleft hfree =>
      have hkeeps := h.lanes lane (List.mem_of_getElem? hlane)
      rw [hleft] at hkeeps
      have hcall := hkeeps call List.mem_cons_self
      refine ⟨h.away, ⟨fun c hc => ?_, h.world.batches, h.world.tasks⟩, ?_, h.due⟩
      · rcases List.mem_append.mp hc with hc | hc
        · exact h.world.clients c hc
        · rw [List.mem_singleton.mp hc]
          exact Call.keepsTo b hcall.left hcall.right
      · intro lane' hlane' call' hcall'
        rcases List.mem_or_eq_of_mem_set hlane' with hlane' | rfl
        · exact h.lanes lane' hlane' call' hcall'
        · exact hkeeps call' (List.mem_cons_of_mem _ hcall')
  | warms hb ctx hdue =>
      have hasks : asks ctx.session := by
        by_cases hsession : ctx.session = s
        · exact hsession ▸ h.due (hdue hsession)
        · exact (hothers _ hsession).left
      refine ⟨h.away, ⟨h.world.clients, ?_, h.world.tasks⟩, h.lanes, fun hstill => ?_⟩
      · intro number requests hbatch r hr
        have hget : (e.world.schedule.batches.insert _ _).get? number = some requests := hbatch
        rw [Table.get?_insert] at hget
        by_cases hnumber : number = e.world.schedule.nextBatch
        · rw [if_pos hnumber] at hget
          cases hget
          simp only [List.map_map, List.mem_map] at hr
          rcases hr with ⟨id, _, rfl⟩
          exact fun _ => hasks
        · rw [if_neg hnumber] at hget
          exact h.world.batches hget r hr
      · exact h.due (Bool.and_elim_left hstill)
  | leaves hstay => exact absurd hstay h.away
  | grounds | empties | finishes =>
      exact ⟨nofun, ⟨h.world.clients, h.world.batches, h.world.tasks⟩, h.lanes, h.due⟩

/-- A task that is there after a step has been there for the same session, or its session
may be asked for. -/
theorem KeepsTo.task_of_step (h : e.KeepsTo s asks files) (hformed : e.machine.Formed)
    (hstep : Step backends s e e') {k : Nat} {t' : Cache.Task π}
    (ht' : e'.machine.tasks.get? k = some t') :
    (∃ t, e.machine.tasks.get? k = some t ∧ t.context = t'.context) ∨
      asks t'.context.session := by
  cases hstep with
  | goesOn hturn hstarts => exact h.world.task_of_turn hformed hturn ht'
  | _ => exact .inl ⟨t', ht', rfl⟩

/-!
# The end as an invalidation
-/

/-- How far the invalidation of the session is at each point, if its mark is not before a
ticket. -/
def Rounds (s : SessionId) (ticket : Nat) :
    Stay → List Invalidation → List (Scope × Nat) → Prop
  | .registered, underway, completed | .leaving, underway, completed =>
      underway = [] ∧ completed = []
  | .grounded, underway, _ =>
      ∃ mark, ticket ≤ mark ∧ underway = [⟨[.session s], .flights mark⟩]
  | .emptied, underway, _ =>
      ∃ mark, ticket ≤ mark ∧ underway = [⟨[.session s], .entries mark⟩]
  | .ended, _, completed => ∃ mark, ticket ≤ mark ∧ (.session s, mark) ∈ completed

/-- The chronicle tells the same story. -/
structure ToldBy (backends : Set (Backend π)) (settings : CacheSettings) (s : SessionId)
    (ticket : Nat) (e : Tenancy π) (c : Chronicle π) : Prop where
  recorded : c.Recorded backends settings
  world : c.world = e.world
  ticket_le : ticket ≤ e.machine.tables.nextTicket
  rounds : Rounds s ticket e.stay c.underway c.completed

theorem exists_told_start (prewarmDue : Bool) :
    ∃ c, ToldBy backends settings s 0 (start settings prewarmDue) c :=
  ⟨.start settings, .refl, rfl, Nat.zero_le _, rfl, rfl⟩

variable {ticket : Nat} {c : Chronicle π}

theorem ToldBy.formed (h : e.ToldBy backends settings s ticket c) : e.machine.Formed := by
  have hformed := (Chronicle.faithful_of_recorded h.recorded).orderly.formed
  rwa [Chronicle.machine, h.world] at hformed

theorem ToldBy.turn (h : e.ToldBy backends settings s ticket c) {w : World π}
    (hturn : e.world.Turn backends sweeps w) (hworld : e'.world = w) (hstay : e'.stay = e.stay) :
    ∃ c', e'.ToldBy backends settings s ticket c' := by
  have hfaithful := Chronicle.faithful_of_recorded h.recorded
  have heffect := Machine.effect_of_turns h.formed hturn.machine.left
  rw [← h.world] at hturn
  rcases Chronicle.exists_step_of_turn hfaithful hturn with ⟨published, hstep⟩
  refine ⟨_, h.recorded.tail hstep, hworld.symm, ?_, hstay ▸ h.rounds⟩
  rw [machine, hworld]
  exact h.ticket_le.trans heffect.nextTicket_le

theorem ToldBy.step (h : e.ToldBy backends settings s ticket c)
    (hstep : Step backends s e e') : ∃ c', e'.ToldBy backends settings s ticket c' := by
  obtain ⟨w, published, underway, completed⟩ := c
  obtain ⟨hrecorded, rfl, hle, hrounds⟩ := h
  have htold : e.ToldBy backends settings s ticket ⟨e.world, published, underway, completed⟩ :=
    ⟨hrecorded, rfl, hle, hrounds⟩
  cases hstep with
  | goesOn hturn hstarts => exact htold.turn hturn rfl rfl
  | visits errand hfound => exact ⟨_, hrecorded, rfl, hle, hrounds⟩
  | @calls b hb i lane call left hlane hleft hfree =>
      exact htold.turn (.aside hb (.call call) rfl) rfl rfl
  | warms hb ctx hdue => exact htold.turn (.aside hb (.batch _) rfl) rfl rfl
  | leaves hstay =>
      rw [hstay] at hrounds
      exact ⟨_, hrecorded, rfl, hle, hrounds⟩
  | grounds hstay hspares =>
      rw [hstay] at hrounds
      obtain ⟨rfl, rfl⟩ := hrounds
      have hbegun := hrecorded.tail (.begins (u := .invalidateSession s) rfl)
      have hgrounded := hbegun.tail (.grounds (List.nil_append _).symm hspares)
      exact ⟨_, hgrounded, rfl, hle, _, hle, rfl⟩
  | empties hstay =>
      rw [hstay] at hrounds
      obtain ⟨mark, hmark, rfl⟩ := hrounds
      have hemptied := hrecorded.tail (.empties (List.nil_append _).symm)
      exact ⟨_, hemptied, rfl, hle, mark, hmark, rfl⟩
  | finishes hstay =>
      rw [hstay] at hrounds
      obtain ⟨mark, hmark, rfl⟩ := hrounds
      have hfinished := hrecorded.tail (.finishes (List.nil_append _).symm)
      exact ⟨_, hfinished, rfl, hle, mark, hmark, List.mem_cons_self⟩

/-!
# Runs
-/

theorem ToldBy.leads (h : e.ToldBy backends settings s ticket c) (hleads : Leads backends s e e') :
    ∃ c', e'.ToldBy backends settings s ticket c' := by
  induction hleads with
  | refl => exact ⟨c, h⟩
  | tail _ hstep ih =>
      rcases ih with ⟨c', hc'⟩
      exact hc'.step hstep

theorem Attained.exists_told (h : e.Attained backends settings s) :
    ∃ c, e.ToldBy backends settings s 0 c := by
  rcases h with ⟨prewarmDue, hleads⟩
  have hstart : ∃ c, ToldBy backends settings s 0 (start settings prewarmDue) c :=
    exists_told_start prewarmDue
  rcases hstart with ⟨c, hc⟩
  exact hc.leads hleads

/-- Nothing has been removed for a session that is leaving, so the mark will not be before
the ticket that is next. -/
theorem Attained.told_of_leaving (h : e.Attained backends settings s) (hstay : e.stay = .leaving) :
    ∃ c, e.ToldBy backends settings s e.machine.tables.nextTicket c := by
  rcases h.exists_told with ⟨c, hc⟩
  have hrounds := hc.rounds
  rw [hstay] at hrounds
  exact ⟨c, hc.recorded, hc.world, Nat.le_refl _, hstay ▸ hrounds⟩

theorem Attained.leads (h : e.Attained backends settings s) (hleads : Leads backends s e e') :
    e'.Attained backends settings s := by
  rcases h with ⟨prewarmDue, hbefore⟩
  exact ⟨prewarmDue, hbefore.trans hleads⟩

/-- What keeps to some sessions does so to the end, and tasks take off for these only. -/
theorem KeepsTo.leads (h : e.KeepsTo s asks files) (hothers : ∀ s' ≠ s, asks s' ∧ files s')
    (hattained : e.Attained backends settings s) (hleads : Leads backends s e e') :
    e'.KeepsTo s asks files ∧ ∀ {k t'}, e'.machine.tasks.get? k = some t' →
      (∃ t, e.machine.tasks.get? k = some t ∧ t.context = t'.context) ∨
        asks t'.context.session := by
  induction hleads with
  | refl => exact ⟨h, fun ht => .inl ⟨_, ht, rfl⟩⟩
  | tail hbefore hstep ih =>
      rcases (hattained.leads hbefore).exists_told with ⟨c, hc⟩
      refine ⟨ih.left.step hothers hc.formed hstep, fun ht' => ?_⟩
      rcases ih.left.task_of_step hc.formed hstep ht' with ⟨t, ht, hctx⟩ | hasks
      · rw [← hctx]
        exact ih.right ht
      · exact .inr hasks

end

/-!
# Runs that can be carried out
-/

inductive Deed where
  | goOn (deed : Cache.Deed)
  | visit (errand : Errand)
  | call (lane : Nat)
  | warm (ctx : Context)
  | leave
  | ground
  | empty
  | finish

/-- Does a deed where it can be done. -/
def perform (b : Backend π) (s : SessionId) (e : Tenancy π) : Deed → Tenancy π
  | .goOn deed => { e with world := e.world.perform b deed }
  | .visit errand =>
      if errand.session = s → e.stay = .registered then
        { e with lanes := e.lanes ++ errand.lanes }
      else e
  | .call i =>
      match e.lanes[i]? with
      | some ⟨client, call :: left⟩ =>
          if Lane.isFree e.world.clients ⟨client, call :: left⟩ then e.called b i call left else e
      | _ => e
  | .warm ctx => if ctx.session = s → e.prewarmDue then e.warmed s ctx else e
  | .leave => if e.stay = .registered then { e with stay := .leaving } else e
  | .ground =>
      let grounded := e.updateTables (Scope.session s).dropFlights
      if e.stay = .leaving ∧ e.machine.sparing grounded.machine then
        { grounded with stay := .grounded }
      else e
  | .empty =>
      if e.stay = .grounded then
        { e.updateTables (Scope.session s).dropEntries with stay := .emptied }
      else e
  | .finish =>
      if e.stay = .emptied then
        { e.updateTables (Scope.session s).dropListings with stay := .ended }
      else e

theorem leads_ite {backends : Set (Backend π)} {s : SessionId} {e e' : Tenancy π} {p : Prop}
    [Decidable p] (h : p → Step backends s e e') :
    Leads backends s e (if p then e' else e) := by
  by_cases hp : p
  · rw [if_pos hp]
    exact .single (h hp)
  · rw [if_neg hp]
    exact .refl

theorem leads_perform (b : Backend π) (s : SessionId) (e : Tenancy π) (deed : Deed) :
    Leads {b} s e (e.perform b s deed) := by
  have hb : b ∈ ({b} : Set (Backend π)) := Set.mem_singleton b
  cases deed with
  | goOn deed =>
      rcases World.turn_of_perform hb e.world deed with hsame | ⟨hturn, hstarts⟩
      · rw [perform, hsame]
        exact .refl
      · exact .single (.goesOn hturn hstarts)
  | visit errand => exact leads_ite (.visits errand)
  | call i =>
      rcases hlane : e.lanes[i]? with _ | ⟨client, _ | ⟨call, left⟩⟩
      · simp only [perform, hlane]
        exact .refl
      · simp only [perform, hlane]
        exact .refl
      · simp only [perform, hlane]
        exact leads_ite (.calls hb hlane rfl)
  | warm ctx => exact leads_ite (.warms hb ctx)
  | leave => exact leads_ite .leaves
  | ground =>
      exact leads_ite fun hready =>
        .grounds hready.left (Machine.spares_of_sparing hready.right)
  | empty => exact leads_ite .empties
  | finish => exact leads_ite .finishes

/-- Does one deed after another. -/
def play (b : Backend π) (s : SessionId) (e : Tenancy π) (deeds : List Deed) : Tenancy π :=
  deeds.foldl (perform b s) e

theorem leads_play (b : Backend π) (s : SessionId) (e : Tenancy π) (deeds : List Deed) :
    Leads {b} s e (e.play b s deeds) := by
  induction deeds generalizing e with
  | nil => exact .refl
  | cons deed deeds ih => exact (leads_perform b s e deed).trans (ih _)

/-- Everything under way waits for calls of the backend. -/
def isQuiet (e : Tenancy π) : Bool :=
  e.stay ≠ .registered && !e.prewarmDue && e.lanes.isEmpty && e.world.clients.isEmpty &&
    (e.world.schedule.batches.rows.all fun row => row.2.all fun r => !r.isActive) &&
    e.machine.tasks.rows.all fun row => row.2.stage.isCompiling

theorem keepsTo_of_isQuiet {s : SessionId} {asks files : SessionId → Prop} {e : Tenancy π}
    (h : e.isQuiet) : e.KeepsTo s asks files := by
  simp only [isQuiet, Bool.and_eq_true, List.isEmpty_iff, List.all_eq_true] at h
  rcases h with ⟨⟨⟨⟨⟨hstay, hdue⟩, hlanes⟩, hclients⟩, hbatches⟩, htasks⟩
  refine ⟨of_decide_eq_true hstay, ⟨?_, ?_, ?_⟩, ?_, ?_⟩
  · rw [hclients]
    exact nofun
  · intro number requests hbatch r hr hactive
    have hidle := hbatches _ (Table.mem_rows_of_get? hbatch) r hr
    rw [hactive] at hidle
    cases hidle
  · intro k t ht
    have hcompiling := htasks _ (Table.mem_rows_of_get? ht)
    unfold Task.KeepsTo
    cases hstage : t.stage with
    | compiling u => exact trivial
    | _ =>
        rw [hstage] at hcompiling
        cases hcompiling
  · rw [hlanes]
    exact nofun
  · intro hstill
    rw [hstill] at hdue
    cases hdue

/-!
# Two projects

For an example, a workspace with two projects that need nothing, and two runs.
-/

def twinWorkspace : Workspace :=
  ⟨⟨"/"⟩, [loneProject "old", ⟨⟨"b"⟩, "b", [⟨⟨"/b.arb"⟩, "new"⟩], [], [], ⟨[]⟩⟩]⟩

def twins : Context :=
  .ofWorkspace ⟨"s"⟩ twinWorkspace

/-- A task goes on for some steps. -/
def works (task steps : Nat) : List Deed :=
  List.replicate steps (.goOn (.work (.task task)))

/-- A client goes on for some moves. -/
def moves (client steps : Nat) : List Deed :=
  List.replicate steps (.goOn (.move client))

/-- All leaves are asked for ahead, and their compiles are under way when the session is
taken out. -/
def prewarming : Tenancy (List Document) :=
  let asked : List Deed := List.replicate 6 (.goOn (.work (.batch 0)))
  let deeds : List (List Deed) := [[.warm twins], asked, works 0 4, works 1 4, [.leave]]
  (start .default true).play echo ⟨"s"⟩ deeds.flatten

/-- A report waits for the first project when the session ends, and goes on with the second. -/
def reporting : Tenancy (List Document) :=
  let deeds : List (List Deed) :=
    [[.visit (.report twins [] false), .call 0], moves 0 4, works 0 4,
      [.leave, .ground, .empty, .finish], works 0 4, moves 0 4,
      [.call 0], moves 1 4, works 1 10, moves 1 4]
  (start .default false).play echo ⟨"s"⟩ deeds.flatten

section

variable {backends : Set (Backend π)} {settings : CacheSettings} {s : SessionId}
  {e e' : Tenancy π} {ticket : Nat} {c : Chronicle π}

/-!
# What is left
-/

/-- An entry for a session that has ended goes back to a task that has taken off late. -/
theorem ToldBy.task_of_entry (h : e.ToldBy backends settings s ticket c)
    (hended : e.stay = .ended) {slot : Slot} (hslot : slot.session = s) {entry : Entry π}
    (hentry : e.machine.tables.entries.get? slot = some entry) :
    ∃ k t, ticket ≤ k ∧ e.machine.tasks.get? k = some t ∧ t.slot = slot ∧
      t.stage.settled? = some (.ok entry.artifact) := by
  have hfaithful := Chronicle.faithful_of_recorded h.recorded
  have hrounds := h.rounds
  rw [hended] at hrounds
  rcases hrounds with ⟨mark, hmark, hcompleted⟩
  have hstored : c.machine.tables.stored? slot = some (entry.fingerprint, entry.artifact) := by
    rw [Chronicle.machine, h.world, Tables.stored?, hentry]
    rfl
  rcases hfaithful.last hstored with ⟨k, t, hlast, ht, htslot, _, hsettled⟩
  rw [Chronicle.machine, h.world] at ht
  have hk := hfaithful.emptied (.inl hcompleted) hslot hstored hlast
  exact ⟨k, t, hmark.trans hk, ht, htslot, hsettled⟩

/-- So does a flight, and its task is still at work. -/
theorem ToldBy.task_of_flight (h : e.ToldBy backends settings s ticket c)
    (hended : e.stay = .ended) {slot : Slot} (hslot : slot.session = s) {flight : Flight}
    (hflight : e.machine.tables.flights.get? slot = some flight) :
    ticket ≤ flight.ticket ∧
      ∃ t, e.machine.tasks.get? flight.ticket = some t ∧ t.slot = slot ∧ t.stage.isRunning := by
  have hfaithful := Chronicle.faithful_of_recorded h.recorded
  have hrounds := h.rounds
  rw [hended] at hrounds
  rcases hrounds with ⟨mark, hmark, hcompleted⟩
  rw [machine, ← h.world] at hflight
  rcases hfaithful.orderly.flights hflight with ⟨t, ht, htslot, _, hrunning⟩
  rw [Chronicle.machine, h.world] at ht
  exact ⟨hmark.trans (hfaithful.grounded (.inl hcompleted) hslot hflight), t, ht, htslot, hrunning⟩

/-- A listing for a session that has ended has just been filed or was there before, unless
the end has come only now. -/
theorem listing_of_step (hstep : Step backends s e e') (hended : e'.stay = .ended)
    {key : ListingKey} (hkey : key.slot.session = s) {l : Listing}
    (hl : e'.machine.tables.listings.get? key = some l) :
    e.stay = .ended ∧
      (e.machine.tables.listings.get? key = some l ∨ e.Files key l.diagnostics.value) := by
  cases hstep with
  | goesOn hturn hstarts =>
      refine ⟨hended, (World.listing_of_turn hturn hl).imp_right ?_⟩
      rintro ⟨c, hc, next, hstage⟩
      exact ⟨c, hc, _, next, hstage⟩
  | visits | calls | warms => exact ⟨hended, .inl hl⟩
  | leaves | grounds | empties => cases hended
  | finishes hstay =>
      have hnone := Table.get?_filter_keys e.machine.tables.listings
        (fun key => decide (key.slot.session ≠ s)) key
      rw [if_neg (by simpa using hkey)] at hnone
      exact nomatch hnone.symm.trans hl

/-- A listing for a session that has ended was filed after its entries had been removed. -/
theorem filed_of_leads {e₂ e₃ : Tenancy π} (hleads : Leads backends s e₂ e₃)
    (hstay : e₂.stay = .emptied) (hended : e₃.stay = .ended) {key : ListingKey}
    (hkey : key.slot.session = s) {l : Listing}
    (hl : e₃.machine.tables.listings.get? key = some l) :
    ∃ e, Leads backends s e₂ e ∧ Leads backends s e e₃ ∧ e.Files key l.diagnostics.value := by
  induction hleads with
  | refl =>
      rw [hstay] at hended
      cases hended
  | tail hbefore hstep ih =>
      rcases listing_of_step hstep hended hkey hl with ⟨hended', hold | hfiles⟩
      · rcases ih hended' hold with ⟨e, h₂, h₃, hfiles⟩
        exact ⟨e, h₂, h₃.tail hstep, hfiles⟩
      · exact ⟨_, hbefore, .single hstep, hfiles⟩

/-- Where nobody asks for the session any more, none of its tasks is new. -/
theorem AsksNothing.session_ne (h : e.AsksNothing s) (hattained : e.Attained backends settings s)
    (hleads : Leads backends s e e') {k : Nat} {t : Cache.Task π}
    (hnew : e.machine.tasks.get? k = none) (ht : e'.machine.tasks.get? k = some t) :
    t.slot.session ≠ s := by
  have hothers : ∀ s' ≠ s, s' ≠ s ∧ True := fun _ hs' => ⟨hs', trivial⟩
  rcases (h.leads hothers hattained hleads).right ht with ⟨t₀, ht₀, _⟩ | hne
  · exact nomatch hnew.symm.trans ht₀
  · exact hne

/-- Where nobody files for the session any more, nobody will. -/
theorem FilesNothing.session_ne (h : e.FilesNothing s) (hattained : e.Attained backends settings s)
    (hleads : Leads backends s e e') {key : ListingKey} {ds : List Diagnostic}
    (hfiles : e'.Files key ds) : key.slot.session ≠ s := by
  have hothers : ∀ s' ≠ s, True ∧ s' ≠ s := fun _ hs' => ⟨trivial, hs'⟩
  rcases hfiles with ⟨c, hc, f, next, hstage⟩
  have hkeeps := (h.leads hothers hattained hleads).left.world.clients c hc
  rw [hstage] at hkeeps
  exact hkeeps.left

/-- The cache holds nothing of the session. -/
structure HoldsNothing (s : SessionId) (e : Tenancy π) : Prop where
  flights : ∀ slot, slot.session = s → e.machine.tables.flights.get? slot = none
  entries : ∀ slot, slot.session = s → e.machine.tables.entries.get? slot = none
  listings : ∀ key : ListingKey, key.slot.session = s →
    e.machine.tables.listings.get? key = none

/-- Once a session has ended, nothing is under way for it unless one of its tasks is. What
is stored for it comes from a task that was not there before the flights were removed, and
what is listed was filed after the entries had been. So nothing at all is left if by then
nobody was to ask for the session, or to file for it, any more. -/
theorem left_by_latecomers {e₁ e₂ e₃ : Tenancy π} (hattained : e₁.Attained backends settings s)
    (hleaving : e₁.stay = .leaving) (h₂ : Leads backends s e₁ e₂) (hemptied : e₂.stay = .emptied)
    (h₃ : Leads backends s e₂ e₃) (hended : e₃.stay = .ended) :
    ((∀ k t, e₃.machine.tasks.get? k = some t → t.slot.session = s → ¬ t.stage.isRunning) →
      ∀ slot, slot.session = s → e₃.machine.tables.flights.get? slot = none) ∧
    (∀ slot, slot.session = s → ∀ entry, e₃.machine.tables.entries.get? slot = some entry →
      ∃ k t, e₃.machine.tasks.get? k = some t ∧ t.slot = slot ∧
        t.stage.settled? = some (.ok entry.artifact) ∧ e₁.machine.tasks.get? k = none) ∧
    (∀ key : ListingKey, key.slot.session = s → ∀ l,
      e₃.machine.tables.listings.get? key = some l →
        ∃ e, Leads backends s e₂ e ∧ Leads backends s e e₃ ∧ e.Files key l.diagnostics.value) ∧
    (e₁.AsksNothing s → e₂.FilesNothing s → e₃.HoldsNothing s) := by
  rcases hattained.told_of_leaving hleaving with ⟨c₁, hc₁⟩
  have hleads := h₂.trans h₃
  rcases hc₁.leads hleads with ⟨c₃, hc₃⟩
  have hnew {k : Nat} (hk : e₁.machine.tables.nextTicket ≤ k) : e₁.machine.tasks.get? k = none :=
    Option.eq_none_iff_forall_ne_some.mpr fun t ht =>
      absurd (hc₁.formed.lt_nextTicket ht) (Nat.not_lt.mpr hk)
  refine ⟨?_, ?_, ?_, ?_⟩
  · intro hquiet slot hslot
    refine Option.eq_none_iff_forall_ne_some.mpr fun flight hflight => ?_
    rcases hc₃.task_of_flight hended hslot hflight with ⟨_, t, ht, htslot, hrunning⟩
    exact hquiet _ t ht (htslot ▸ hslot) hrunning
  · intro slot hslot entry hentry
    rcases hc₃.task_of_entry hended hslot hentry with ⟨k, t, hk, ht, htslot, hsettled⟩
    exact ⟨k, t, ht, htslot, hsettled, hnew hk⟩
  · intro key hkey l hl
    exact filed_of_leads h₃ hemptied hended hkey hl
  · intro hasks hfiles
    constructor
    · intro slot hslot
      refine Option.eq_none_iff_forall_ne_some.mpr fun flight hflight => ?_
      rcases hc₃.task_of_flight hended hslot hflight with ⟨hk, t, ht, htslot, _⟩
      exact hasks.session_ne hattained hleads (hnew hk) ht (htslot ▸ hslot)
    · intro slot hslot
      refine Option.eq_none_iff_forall_ne_some.mpr fun entry hentry => ?_
      rcases hc₃.task_of_entry hended hslot hentry with ⟨k, t, hk, ht, htslot, _⟩
      exact hasks.session_ne hattained hleads (hnew hk) ht (htslot ▸ hslot)
    · intro key hkey
      refine Option.eq_none_iff_forall_ne_some.mpr fun l hl => ?_
      rcases filed_of_leads h₃ hemptied hended hkey hl with ⟨e, he, _, hfiled⟩
      exact hfiles.session_ne (hattained.leads h₂) he hfiled hkey

end

/-- For one, two compiles that were under way go to their ends, and nothing is left. -/
theorem left_by_latecomers_prewarming : ∃ e₂ e₃ : Tenancy (List Document),
    prewarming.stay = .leaving ∧
      (∃ flight, prewarming.machine.tables.flights.get? ⟨⟨"s"⟩, ⟨"a"⟩⟩ = some flight) ∧
      Leads {echo} ⟨"s"⟩ prewarming e₂ ∧ e₂.stay = .emptied ∧ Leads {echo} ⟨"s"⟩ e₂ e₃ ∧
      e₃.stay = .ended ∧ (∀ row ∈ e₃.machine.tasks.rows, row.2.stage.isEnded) ∧
      e₃.HoldsNothing ⟨"s"⟩ := by
  let e₂ := prewarming.play echo ⟨"s"⟩ [.ground, .empty]
  let e₃ := e₂.play echo ⟨"s"⟩ (.finish :: works 0 4 ++ works 1 4)
  have hattained : prewarming.Attained {echo} .default ⟨"s"⟩ := ⟨true, leads_play ..⟩
  have hleaving : prewarming.stay = .leaving := by decide +kernel
  have h₂ : Leads {echo} ⟨"s"⟩ prewarming e₂ := leads_play ..
  have hemptied : e₂.stay = .emptied := by decide +kernel
  have h₃ : Leads {echo} ⟨"s"⟩ e₂ e₃ := leads_play ..
  have hended : e₃.stay = .ended := by decide +kernel
  have hquiet₁ : prewarming.isQuiet := by decide +kernel
  have hquiet₂ : e₂.isQuiet := by decide +kernel
  rcases left_by_latecomers hattained hleaving h₂ hemptied h₃ hended with ⟨_, _, _, hnothing⟩
  refine ⟨e₂, e₃, hleaving, Option.isSome_iff_exists.mp (by decide +kernel), h₂, hemptied, h₃,
    hended, by decide +kernel, ?_⟩
  exact hnothing (keepsTo_of_isQuiet hquiet₁) (keepsTo_of_isQuiet hquiet₂)

/-- The session has ended and everything is through, but there is an entry of the second
project, and there are listings of both. -/
theorem report_outlives_session : reporting.Attained {echo} .default ⟨"s"⟩ ∧
    reporting.stay = .ended ∧
    (∀ row ∈ reporting.machine.tasks.rows, row.2.stage.isEnded) ∧
    (∀ c ∈ reporting.world.clients, c.stage.isOut) ∧
    (∃ entry, reporting.machine.tables.entries.get? ⟨⟨"s"⟩, ⟨"b"⟩⟩ = some entry) ∧
    (∀ id ∈ twins.graph.ids, ∃ row ∈ reporting.machine.tables.listings.rows,
      row.1.slot = ⟨⟨"s"⟩, id⟩) ∧
    ¬ reporting.HoldsNothing ⟨"s"⟩ := by
  have hthrough : reporting.stay = .ended ∧
      (∀ row ∈ reporting.machine.tasks.rows, row.2.stage.isEnded) ∧
      (∀ c ∈ reporting.world.clients, c.stage.isOut) ∧
      (reporting.machine.tables.entries.get? ⟨⟨"s"⟩, ⟨"b"⟩⟩).isSome ∧
      ∀ id ∈ twins.graph.ids, ∃ row ∈ reporting.machine.tables.listings.rows,
        row.1.slot = ⟨⟨"s"⟩, id⟩ := by
    decide +kernel
  rcases hthrough with ⟨hended, htasks, hclients, hentry, hlistings⟩
  rcases Option.isSome_iff_exists.mp hentry with ⟨entry, hentry⟩
  refine ⟨⟨false, leads_play ..⟩, hended, htasks, hclients, ⟨entry, hentry⟩, hlistings, ?_⟩
  intro hnothing
  exact nomatch (hnothing.entries _ rfl).symm.trans hentry

end Tenancy
end Engine
end Ripple
