import Ripple.Proofs.Cache.Callers
import Ripple.Proofs.Cache.Publishing

/-!
# Errands

What a client does leads to more: tasks take off for its requests, and others for theirs. An
errand is the world with one client and the tasks that are there on its account. Its trails
say what their turns have left behind, while all others take their turns in between.
-/

namespace Ripple
namespace Cache

variable {π : Type}

/-!
# What is new after a move
-/

namespace Machine

/-- Nothing is stored or under way that the task could be for. -/
def Lacks (m : Machine π) (t : Task π) : Prop :=
  (∀ a, m.tables.stored? t.slot ≠ some (t.fingerprint, a)) ∧
    ∀ flight, m.tables.flights.get? t.slot = some flight → flight.fingerprint ≠ t.fingerprint

/-- A task of some kind may be new, and so may its flight. Some entries may be new. -/
structure Brings (m m' : Machine π) (tasks : Set (Task π))
    (entries : Set (Slot × Fingerprint × Held (Artifact π))) : Prop where
  tasks : ∀ {k t}, m.tasks.get? k = none → m'.tasks.get? k = some t → t ∈ tasks
  flights : ∀ {slot flight}, m'.tables.flights.get? slot = some flight →
    m.tables.flights.get? slot = some flight ∨
      ∃ t, m.tasks.get? flight.ticket = none ∧ m'.tasks.get? flight.ticket = some t ∧
        slot = t.slot ∧ flight.fingerprint = t.fingerprint
  entries : ∀ {slot x}, m'.tables.stored? slot = some x →
    m.tables.stored? slot = some x ∨ (slot, x) ∈ entries

variable {m m' m₁ : Machine π} {tasks : Set (Task π)}
  {entries : Set (Slot × Fingerprint × Held (Artifact π))}

theorem brings_of_within (htasks : m'.tasks = m.tasks) (hwithin : m.tables.Within m'.tables) :
    m.Brings m' tasks entries where
  tasks hnone hsome := by
    rw [htasks, hnone] at hsome
    cases hsome
  flights hflight := .inl (hwithin.flights hflight)
  entries hstored := .inl (hwithin.stored? hstored)

theorem Brings.setStage (h : m.Brings m₁ tasks entries) {k : Nat} {t : Task π}
    {s : TaskStage π} (ht : m.tasks.get? k = some t) :
    m.Brings (m₁.setStage k s) tasks entries where
  tasks := by
    intro k' t' hnone hsome
    have hk : k' ≠ k := fun hk => nomatch (hk ▸ hnone).symm.trans ht
    rw [get?_setStage, if_neg hk] at hsome
    exact h.tasks hnone hsome
  flights := by
    intro slot flight hflight
    rcases h.flights hflight with hold | ⟨t', hnone, hsome, hrest⟩
    · exact .inl hold
    · have hk : flight.ticket ≠ k := fun hk => nomatch (hk ▸ hnone).symm.trans ht
      refine .inr ⟨t', hnone, ?_, hrest⟩
      rw [get?_setStage, if_neg hk]
      exact hsome
  entries hstored := h.entries hstored

end Machine

/-- The tasks that may take off for the request. -/
def Request.departures (r : Request π) (m : Machine π) : Set (Task π) :=
  { t | ∃ f, r.stage = .joining f ∧ t = ⟨r.context, r.project, f, .fresh⟩ ∧ m.Lacks t }

theorem Request.brings_of_moves {environment : String} {r r' : Request π} {m m' : Machine π}
    (hm : m.Formed) (hmove : r.Moves environment m (r', m')) :
    m.Brings m' (r.departures m) ∅ := by
  rcases effect_of_moves hmove with ⟨htasks, halike⟩ | ⟨f, hstage, hnext, hlook, hother⟩
  · constructor
    · intro k t hnone hsome
      rw [htasks, hnone] at hsome
      cases hsome
    · exact fun hflight => .inl (halike.flights ▸ hflight)
    · exact fun hstored => .inl (halike.stored ▸ hstored)
  · cases hnext
    constructor
    · intro k t hnone hsome
      rcases get?_of_takeOff hsome with ⟨_, rfl⟩ | ⟨_, hold⟩
      · exact ⟨f, hstage, rfl, hlook, hother⟩
      · rw [hnone] at hold
        cases hold
    · intro slot flight hflight
      by_cases hslot : slot = r.slot
      · have hself : (m.tables.flights.insert r.slot ⟨m.tables.nextTicket, f⟩).get? slot =
            some flight := hflight
        rw [hslot, Table.get?_insert_self] at hself
        cases hself
        exact .inr ⟨_, hm.get?_nextTicket, get?_takeOff_self .., hslot, rfl⟩
      · exact .inl ((Table.get?_insert_of_ne _ hslot _).symm.trans hflight)
    · exact fun hstored => .inl hstored

theorem Task.brings_of_moves {b : Backend π} {gateOpen : Bool} {k : Nat} {t : Task π}
    {m m' : Machine π} (hm : m.Formed) (ht : m.tasks.get? k = some t)
    (hmove : t.Moves b gateOpen k m m') :
    m.Brings m'
      { t' | ∃ asked r left, t.stage = .gathering (asked ++ [r]) left ∧ t' ∈ r.departures m }
      { x | ∃ a, t.stage = .storing a ∧ x = (t.slot, t.fingerprint, a) } := by
  cases hmove with
  | stepped hstage hactive hrequest =>
      have hbrings := Request.brings_of_moves hm hrequest
      refine .setStage ⟨?_, hbrings.flights, ?_⟩ ht
      · exact fun hnone hsome => ⟨_, _, _, hstage, hbrings.tasks hnone hsome⟩
      · exact fun hstored => (hbrings.entries hstored).imp_right False.elim
  | answered hstage hopen =>
      refine .setStage (Machine.brings_of_within ?_ ?_) ht
      · rfl
      · exact within_conclude _ _ _
  | @stored a hstage =>
      refine .setStage ⟨?_, ?_, ?_⟩ ht
      · intro k' t' hnone hsome
        exact nomatch hnone.symm.trans hsome
      · exact fun hflight => .inl hflight
      · intro slot x hstored
        have hstored : (m.tables.store t.slot t.fingerprint a).stored? slot = some x := hstored
        rw [Tables.stored?_store] at hstored
        by_cases hslot : slot = t.slot
        · rw [if_pos hslot] at hstored
          cases hstored
          exact .inr ⟨a, hstage, by rw [hslot]⟩
        · rw [if_neg hslot] at hstored
          exact .inl hstored
  | cleared hstage =>
      refine .setStage (Machine.brings_of_within ?_ ?_) ht
      · rfl
      · exact Tables.within_dropFlight _ _
  | swept hstage =>
      refine .setStage (Machine.brings_of_within ?_ ?_) ht
      · rfl
      · exact Tables.within_sweepCapacity _
  | _ =>
      refine .setStage (Machine.brings_of_within ?_ (Tables.within_of_same ?_ ?_ ?_ ?_)) ht
      all_goals rfl

/-- The backend is called when all artifacts are there that the project is compiled against. -/
theorem Task.calls_of_moves {b : Backend π} {gateOpen : Bool} {k : Nat} {t : Task π}
    {m m' : Machine π} (hmove : t.Moves b gateOpen k m m') :
    m'.calls = m.calls ∨ ∃ references p, t.stage = .counted references ∧
      t.context.workspace.project? t.project = some p ∧
      m'.calls = m.calls ++ [.ofProject p (references.map Held.value)] := by
  cases hmove with
  | stepped hstage hactive hrequest =>
      have hcalls := Request.calls_of_moves hrequest
      exact .inl hcalls
  | called hstage hproject => exact .inr ⟨_, _, hstage, hproject, rfl⟩
  | _ => exact .inl rfl

/-- A client brings about what its request does. -/
theorem ClientStage.brings_of_moves {b : Backend π} {s s' : Schedule π}
    {stage stage' : ClientStage π} (hm : s.machine.Formed)
    (hmove : stage.Moves b s stage' s') :
    s.machine.Brings s'.machine
      { t | ∃ r next, stage = .requesting r next ∧ t ∈ r.departures s.machine } ∅ := by
  cases hmove with
  | goesOn hactive =>
      have hbrings := Request.brings_of_moves hm
        (Request.moves_of_step b.environment s.machine hactive)
      exact ⟨fun hnone hsome => ⟨_, _, rfl, hbrings.tasks hnone hsome⟩, hbrings.flights,
        hbrings.entries⟩
  | receives hanswer =>
      rcases Schedule.eq_of_answer hanswer with rfl | ⟨a, rfl⟩
      · exact Machine.brings_of_within rfl (.refl _)
      · exact Machine.brings_of_within rfl (Tables.within_stamp _ a)
  | files =>
      constructor
      · intro k t hnone hsome
        exact nomatch hnone.symm.trans hsome
      · exact fun hflight => .inl hflight
      · exact fun hstored => .inl hstored
  | _ => exact Machine.brings_of_within rfl (.refl _)

/-- A client that files no listing leaves them all as they are. -/
theorem ClientStage.listings_of_moves {b : Backend π} {s s' : Schedule π}
    {stage stage' : ClientStage π} (hmove : stage.Moves b s stage' s')
    (hfiles : ∀ key f ds next, stage ≠ .following (.file key f ds next)) :
    s'.machine.tables.listings = s.machine.tables.listings := by
  cases hmove with
  | goesOn hactive =>
      exact Request.listings_of_moves (Request.moves_of_step b.environment s.machine hactive)
  | receives hanswer =>
      rcases Schedule.eq_of_answer hanswer with rfl | ⟨a, rfl⟩
      · rfl
      · rfl
  | files => exact absurd rfl (hfiles _ _ _ _)
  | _ => rfl

/-- Tasks only grow older, whoever takes a turn. -/
theorem Machine.Turns.ages {backends : Set (Backend π)} {allowed : Set Upkeep}
    {m m' : Machine π} (h : m.Turns backends allowed m') (hm : m.Formed) : m.Ages m' := by
  cases h with
  | task hb ht hmove => exact (Task.effect_of_moves hm ht hmove).ages
  | request hb hmove => exact (Request.formed_of_moves hm hmove).right.ages
  | upkeep hu => exact (Machine.adds_of_tasks_eq rfl).ages
  | aside htasks => exact (Machine.adds_of_tasks_eq htasks).ages

/-!
# Trails
-/

/-- What some turns have left behind. -/
structure Trail (π : Type) where
  /-- What the backend has been called with, in order. -/
  calls : List (CompileUnit π)
  /-- The tickets of the tasks that have taken off. -/
  tickets : Set Nat
  flights : Set (Slot × Flight)
  entries : Set (Slot × Fingerprint × Held (Artifact π))
  listings : Set (ListingKey × Listing)

namespace Trail

def empty : Trail π := ⟨[], ∅, ∅, ∅, ∅⟩

/-- The trail after one more turn, with all that is there after the turn and was not there
before. -/
def also (l : Trail π) (m m' : Machine π) : Trail π where
  calls := l.calls ++ m'.calls.drop m.calls.length
  tickets := l.tickets ∪ { k | m.tasks.get? k = none ∧ m'.tasks.get? k ≠ none }
  flights := l.flights ∪
    { x | m'.tables.flights.get? x.1 = some x.2 ∧ m.tables.flights.get? x.1 ≠ some x.2 }
  entries := l.entries ∪
    { x | m'.tables.stored? x.1 = some x.2 ∧ m.tables.stored? x.1 ≠ some x.2 }
  listings := l.listings ∪
    { x | m'.tables.listings.get? x.1 = some x.2 ∧ m.tables.listings.get? x.1 ≠ some x.2 }

variable {l : Trail π} {m m' : Machine π} {tasks : Set (Task π)}
  {entries : Set (Slot × Fingerprint × Held (Artifact π))} {P : Context → ProjectId → Prop}

theorem calls_also (l : Trail π) {units : List (CompileUnit π)}
    (h : m'.calls = m.calls ++ units) : (l.also m m').calls = l.calls ++ units := by
  rw [also, h, List.drop_left]

theorem mem_entries_also (hbrings : m.Brings m' tasks entries)
    {x : Slot × Fingerprint × Held (Artifact π)} (hx : x ∈ (l.also m m').entries) :
    x ∈ l.entries ∨ x ∈ entries := by
  rcases hx with hx | ⟨hnew, hold⟩
  · exact .inl hx
  · exact .inr ((hbrings.entries hnew).resolve_left hold)

theorem listings_also
    (h : ∀ {key l}, m'.tables.listings.get? key = some l → m.tables.listings.get? key = some l) :
    (l.also m m').listings = l.listings := by
  refine Set.union_eq_self_of_subset_right ?_
  rintro x ⟨hnew, hold⟩
  exact absurd (h hnew) hold

theorem tickets_subset_also (l : Trail π) (m m' : Machine π) :
    l.tickets ⊆ (l.also m m').tickets :=
  Set.subset_union_left

/-- The tasks are for projects of some kind, and the flights are theirs. -/
structure IsFor (P : Context → ProjectId → Prop) (m : Machine π) (l : Trail π) : Prop where
  tickets : ∀ k ∈ l.tickets, ∃ t, m.tasks.get? k = some t ∧ P t.context t.project
  flights : ∀ x ∈ l.flights, x.2.ticket ∈ l.tickets ∧ ∃ t,
    m.tasks.get? x.2.ticket = some t ∧ x.1 = t.slot ∧ x.2.fingerprint = t.fingerprint

theorem isFor_empty (P : Context → ProjectId → Prop) (m : Machine π) :
    (empty : Trail π).IsFor P m :=
  ⟨nofun, nofun⟩

theorem IsFor.keeps (h : l.IsFor P m) (hkeeps : m.Keeps m') : l.IsFor P m' where
  tickets k hk := by
    rcases h.tickets k hk with ⟨t, ht, hP⟩
    rcases hkeeps ht with ⟨t', ht', hctx, hid, _⟩
    refine ⟨t', ht', ?_⟩
    rw [hctx, hid]
    exact hP
  flights x hx := by
    rcases h.flights x hx with ⟨hmem, t, ht, hslot, hf⟩
    rcases hkeeps ht with ⟨t', ht', hctx, hid, hf'⟩
    refine ⟨hmem, t', ht', ?_, hf.trans hf'.symm⟩
    rw [hslot, Task.slot, Task.slot, hctx, hid]

theorem IsFor.also (h : l.IsFor P m) (hkeeps : m.Keeps m') (hbrings : m.Brings m' tasks entries)
    (hnew : ∀ t ∈ tasks, P t.context t.project) : (l.also m m').IsFor P m' where
  tickets k hk := by
    rcases hk with hk | ⟨hnone, hsome⟩
    · exact (h.keeps hkeeps).tickets k hk
    · rcases Option.ne_none_iff_exists'.mp hsome with ⟨t, ht⟩
      exact ⟨t, ht, hnew t (hbrings.tasks hnone ht)⟩
  flights x hx := by
    rcases hx with hx | ⟨hafter, hbefore⟩
    · rcases (h.keeps hkeeps).flights x hx with ⟨hmem, ht⟩
      exact ⟨.inl hmem, ht⟩
    · rcases (hbrings.flights hafter).resolve_left hbefore with ⟨t, hnone, ht, hslot, hf⟩
      exact ⟨.inr ⟨hnone, by simp [ht]⟩, t, ht, hslot, hf⟩

end Trail

/-!
# The errand of a client
-/

/-- The world, and what the turns of one client and those of the tasks on its account have left
behind. -/
structure Errand (π : Type) where
  world : World π
  own : Trail π
  tasks : Trail π

namespace Errand

abbrev machine (e : Errand π) : Machine π := e.world.machine

/-- The tasks that have taken off for requests of the client, or of such tasks. -/
def onAccount (e : Errand π) : Set Nat := e.own.tickets ∪ e.tasks.tickets

/-- A client makes a call. -/
def begin (b : Backend π) (w : World π) (call : Call) : Errand π where
  world :=
    { w with
      clients := w.clients ++ [⟨call, .following (call.plan b)⟩]
      named := call.named ++ w.named }
  own := .empty
  tasks := .empty

/-- A turn of the client, which is known by its place, of a task on its account, or of somebody
else. The client may be made to give up. -/
inductive Step (b : Backend π) (allowed : Set Upkeep) (place : Nat) (e : Errand π) :
    Errand π → Prop where
  | client {before after : List (Client π)} {c : Client π} {stage : ClientStage π}
      {s : Schedule π} (hclients : e.world.clients = before ++ c :: after)
      (hplace : before.length = place) (hmove : c.stage.Moves b e.world.schedule stage s)
      (hspares : e.machine.Spares s.machine) :
      Step b allowed place e
        { e with
          world :=
            { e.world with
              schedule := s
              clients := before ++ { c with stage := stage } :: after
              printed := c.stage.hashes ++ e.world.printed }
          own := e.own.also e.machine s.machine }
  | task {k : Nat} {s : Schedule π} (hk : k ∈ e.onAccount)
      (hjob : e.world.schedule.stepJob b (.task k) = some s)
      (hspares : e.machine.Spares s.machine) :
      Step b allowed place e
        { e with
          world := { e.world with schedule := s }
          tasks := e.tasks.also e.machine s.machine }
  | other {w : World π} (hturn : e.world.Turn {b} allowed w)
      (hclient : w.clients[place]? = e.world.clients[place]? ∨
        ∃ c, w.clients[place]? = some c ∧ c.stage = .cancelled)
      (htasks : ∀ k ∈ e.onAccount, ∀ t, e.machine.tasks.get? k = some t →
        w.machine.tasks.get? k = some t) : Step b allowed place e { e with world := w }

/-- All that can come of a call in a world. -/
def Runs (b : Backend π) (allowed : Set Upkeep) (w : World π) (call : Call) (e : Errand π) :
    Prop :=
  Relation.ReflTransGen (Step b allowed w.clients.length) (begin b w call) e

variable {b : Backend π} {allowed : Set Upkeep} {settings : CacheSettings} {place : Nat}
  {e e' : Errand π} {w : World π}

theorem Step.turn (h : e.Step b allowed place e') : e.world.Turn {b} allowed e'.world := by
  cases h with
  | client hclients hplace hmove hspares =>
      exact .work (Set.mem_singleton b) (.client hclients hmove) hspares
  | task hk hjob hspares => exact .work (Set.mem_singleton b) (.job hjob) hspares
  | other hturn hclient htasks => exact hturn

theorem Runs.attained {call : Call} (h : Runs b allowed w call e)
    (hw : w.Attained {b} allowed settings) : e.world.Attained {b} allowed settings := by
  induction h with
  | refl => exact hw.tail (.aside (Set.mem_singleton b) (.call call) rfl)
  | tail _ hstep ih => exact ih.tail hstep.turn

/-- A task takes off only where nothing is stored or under way that it could be for. -/
theorem Step.lacks (h : e.Step b allowed place e') (hformed : e.machine.Formed) {k : Nat}
    (hk : k ∈ e'.onAccount) (hnew : k ∉ e.onAccount) :
    ∃ t, e'.machine.tasks.get? k = some t ∧ e.machine.Lacks t := by
  cases h with
  | @client before after c stage s hclients hplace hmove hspares =>
      rcases hk with (hk | ⟨hnone, hsome⟩) | hk
      · exact absurd (.inl hk) hnew
      · rcases Option.ne_none_iff_exists'.mp hsome with ⟨t, ht⟩
        rcases (ClientStage.brings_of_moves hformed hmove).tasks hnone ht with
          ⟨r, next, _, f, _, _, hlacks⟩
        exact ⟨t, ht, hlacks⟩
      · exact absurd (.inr hk) hnew
  | @task k' s hk' hjob hspares =>
      rcases hk with hk | hk | ⟨hnone, hsome⟩
      · exact absurd (.inl hk) hnew
      · exact absurd (.inr hk) hnew
      · rcases Option.ne_none_iff_exists'.mp hsome with ⟨t, ht⟩
        cases Schedule.steps_of_stepJob hjob with
        | task ht' hmove =>
            rcases (Task.brings_of_moves hformed ht' hmove).tasks hnone ht with
              ⟨asked, r, left, _, f, _, _, hlacks⟩
            exact ⟨t, ht, hlacks⟩
  | other hturn hclient htasks => exact absurd hk hnew

/-!
# Every turn is one of somebody
-/

theorem getElem?_replaced {α : Type} {before after : List α} {x y : α} {n : Nat}
    (hn : n ≠ before.length) : (before ++ y :: after)[n]? = (before ++ x :: after)[n]? := by
  rcases Nat.lt_or_ge n before.length with hlt | hge
  · rw [List.getElem?_append_left hlt, List.getElem?_append_left hlt]
  · rw [List.getElem?_append_right hge, List.getElem?_append_right hge]
    obtain ⟨d, hd⟩ : ∃ d, n - before.length = d + 1 := ⟨n - before.length - 1, by omega⟩
    rw [hd, List.getElem?_cons_succ, List.getElem?_cons_succ]

theorem exists_step_of_work (hformed : e.machine.Formed) (hwork : e.world.Work b w)
    (hspares : e.machine.Spares w.machine) : ∃ e', e.Step b allowed place e' ∧ e'.world = w := by
  have hturn : e.world.Turn {b} allowed w := .work (Set.mem_singleton b) hwork hspares
  cases hwork with
  | @job job s hjob =>
      cases Schedule.steps_of_stepJob hjob with
      | @task k t m ht hmove =>
          by_cases hk : k ∈ e.onAccount
          · exact ⟨_, .task hk hjob hspares, rfl⟩
          · refine ⟨_, .other hturn (.inl rfl) fun k' hk' t' ht' => ?_, rfl⟩
            exact Task.get?_of_moves hformed hmove (fun heq => hk (heq ▸ hk')) ht'
      | batch hbatch hactive hmove =>
          refine ⟨_, .other hturn (.inl rfl) fun k' hk' t' ht' => ?_, rfl⟩
          exact (Request.formed_of_moves hformed hmove).right ht'
  | @client before after c stage s hclients hmove =>
      by_cases hplace : before.length = place
      · exact ⟨_, .client hclients hplace hmove hspares, rfl⟩
      · refine ⟨_, .other hturn (.inl ?_) fun k' hk' t' ht' => ?_, rfl⟩
        · rw [hclients]
          exact getElem?_replaced (Ne.symm hplace)
        · change s.machine.tasks.get? k' = some t'
          rcases World.tasks_of_moves hmove with htasks | ⟨r, next, _, hactive, hmachine⟩
          · rw [htasks]
            exact ht'
          · rw [hmachine]
            exact (Request.formed_of_moves hformed (Request.moves_of_step _ _ hactive)).right ht'

/-- Whatever happens in the world is a turn of the client, of a task on its account, or of
somebody else. -/
theorem exists_step_of_turn (hformed : e.machine.Formed)
    (hplace : place < e.world.clients.length) (hturn : e.world.Turn {b} allowed w) :
    ∃ e', e.Step b allowed place e' ∧ e'.world = w := by
  have hother (hclients : w.clients = e.world.clients)
      (htasks : w.machine.tasks = e.machine.tasks) :
      ∃ e', e.Step b allowed place e' ∧ e'.world = w :=
    ⟨_, .other hturn (.inl (by rw [hclients])) (fun _ _ _ ht => htasks ▸ ht), rfl⟩
  have hturn' := hturn
  cases hturn with
  | work hb hwork hspares =>
      cases Set.mem_singleton_iff.mp hb
      exact exists_step_of_work hformed hwork hspares
  | aside hb hstep hmachine =>
      cases Set.mem_singleton_iff.mp hb
      have htasks : w.machine.tasks = e.machine.tasks := congrArg Machine.tasks hmachine
      cases hstep with
      | work hwork =>
          refine exists_step_of_work hformed hwork (Machine.spares_of_flights_eq ?_)
          rw [hmachine]
      | call call =>
          refine ⟨_, .other hturn' (.inl ?_) (fun _ _ _ ht => ht), rfl⟩
          exact List.getElem?_append_left hplace
      | @cancel before after c hclients hin =>
          refine ⟨_, .other hturn' ?_ (fun _ _ _ ht => ht), rfl⟩
          by_cases hn : place = before.length
          · refine .inr ⟨{ c with stage := .cancelled }, ?_, rfl⟩
            simp [hn]
          · refine .inl ?_
            rw [hclients]
            exact getElem?_replaced hn
      | _ => exact hother rfl htasks
  | upkeep hu hspares => exact hother rfl rfl
  | tick elapsed => exact hother rfl rfl

theorem length_clients_of_work (hwork : e.world.Work b w) :
    w.clients.length = e.world.clients.length := by
  cases hwork with
  | job hjob => rfl
  | client hclients hmove => simp [hclients]

/-- Clients stay where they are. -/
theorem length_clients_of_turn (hturn : e.world.Turn {b} allowed w) :
    e.world.clients.length ≤ w.clients.length := by
  cases hturn with
  | work hb hwork hspares => exact Nat.le_of_eq (length_clients_of_work hwork).symm
  | aside hb hstep hmachine =>
      cases hstep with
      | work hwork => exact Nat.le_of_eq (length_clients_of_work hwork).symm
      | call call => simp
      | cancel hclients hin => simp [hclients]
      | _ => exact Nat.le_refl _
  | upkeep hu hspares => exact Nat.le_refl _
  | tick elapsed => exact Nat.le_refl _

theorem Runs.lt_length {call : Call} (h : Runs b allowed w call e) :
    w.clients.length < e.world.clients.length := by
  induction h with
  | refl => simp [begin]
  | tail _ hstep ih => exact Nat.lt_of_lt_of_le ih (length_clients_of_turn hstep.turn)

/-- So whatever becomes of the world after the call, the errand comes to it. -/
theorem Runs.leads {call : Call} (h : Runs b allowed w call e)
    (hw : w.Attained {b} allowed settings) {w' : World π}
    (hleads : e.world.Leads {b} allowed w') : ∃ e', Runs b allowed w call e' ∧ e'.world = w' := by
  induction hleads with
  | refl => exact ⟨e, h, rfl⟩
  | tail _ hturn ih =>
      rcases ih with ⟨e₁, h₁, rfl⟩
      have hformed := (World.tidy_of_attained (h₁.attained hw)).formed
      rcases exists_step_of_turn hformed h₁.lt_length hturn with ⟨e₂, hstep, hworld⟩
      exact ⟨e₂, h₁.tail hstep, hworld⟩

/-!
# What is left behind
-/

/-- Tasks are on the account for projects of some kind only. The flights that are left behind
are those of such tasks, entries are what they have come to, and nothing is listed. -/
structure Confined (P : Context → ProjectId → Prop) (e : Errand π) : Prop where
  own : e.own.IsFor P e.machine
  tasks : e.tasks.IsFor P e.machine
  calls : ∀ u ∈ e.tasks.calls, ∃ k ∈ e.onAccount, ∃ t p references,
    e.machine.tasks.get? k = some t ∧ t.context.workspace.project? t.project = some p ∧
      u = .ofProject p references
  unstored : e.own.entries = ∅
  entries : ∀ x ∈ e.tasks.entries, ∃ k ∈ e.onAccount, ∃ t a, e.machine.tasks.get? k = some t ∧
    x = (t.slot, t.fingerprint, a) ∧ t.stage.settled? = some (.ok a)
  unlisted : e.own.listings = ∅ ∧ e.tasks.listings = ∅

variable {P : Context → ProjectId → Prop}

theorem confined_begin (P : Context → ProjectId → Prop) (b : Backend π) (w : World π)
    (call : Call) : (begin b w call).Confined P where
  own := Trail.isFor_empty P _
  tasks := Trail.isFor_empty P _
  calls := nofun
  unstored := rfl
  entries := nofun
  unlisted := ⟨rfl, rfl⟩

theorem Confined.of_onAccount (h : e.Confined P) {k : Nat} (hk : k ∈ e.onAccount) :
    ∃ t, e.machine.tasks.get? k = some t ∧ P t.context t.project := by
  rcases hk with hk | hk
  · exact h.own.tickets k hk
  · exact h.tasks.tickets k hk

theorem Confined.calls_keeps (h : e.Confined P) {m : Machine π} (hkeeps : e.machine.Keeps m)
    {account : Set Nat} (haccount : e.onAccount ⊆ account) :
    ∀ u ∈ e.tasks.calls, ∃ k ∈ account, ∃ t p references, m.tasks.get? k = some t ∧
      t.context.workspace.project? t.project = some p ∧ u = .ofProject p references := by
  intro u hu
  rcases h.calls u hu with ⟨k, hk, t, p, references, ht, hp, heq⟩
  rcases hkeeps ht with ⟨t', ht', hctx, hid, _⟩
  refine ⟨k, haccount hk, t', p, references, ht', ?_, heq⟩
  rw [hctx, hid]
  exact hp

theorem Confined.entries_ages (h : e.Confined P) {m : Machine π} (hages : e.machine.Ages m)
    {account : Set Nat} (haccount : e.onAccount ⊆ account) :
    ∀ x ∈ e.tasks.entries, ∃ k ∈ account, ∃ t a, m.tasks.get? k = some t ∧
      x = (t.slot, t.fingerprint, a) ∧ t.stage.settled? = some (.ok a) := by
  intro x hx
  rcases h.entries x hx with ⟨k, hk, t, a, ht, rfl, hsettled⟩
  rcases hages ht with ⟨t', ht', hage⟩
  refine ⟨k, haccount hk, t', a, ht', ?_, hage.settled hsettled⟩
  rw [hage.slot, hage.fingerprint]

theorem Confined.client (h : e.Confined P) (hformed : e.machine.Formed)
    (hkeeps : e.machine.Keeps w.machine) (hages : e.machine.Ages w.machine)
    {stage stage' : ClientStage π} (hmove : stage.Moves b e.world.schedule stage' w.schedule)
    (hasks : ∀ r next, stage = .requesting r next → P r.context r.project)
    (hfiles : ∀ key f ds next, stage ≠ .following (.file key f ds next)) :
    Confined P { e with world := w, own := e.own.also e.machine w.machine } := by
  have hbrings := ClientStage.brings_of_moves hformed hmove
  have haccount : e.onAccount ⊆ (e.own.also e.machine w.machine).tickets ∪ e.tasks.tickets :=
    Set.union_subset_union_left _ (e.own.tickets_subset_also _ _)
  constructor
  · refine h.own.also hkeeps hbrings ?_
    rintro t ⟨r, next, hstage, f, _, rfl, _⟩
    exact hasks r next hstage
  · exact h.tasks.keeps hkeeps
  · exact h.calls_keeps hkeeps haccount
  · refine Set.eq_empty_of_forall_notMem fun x hx => ?_
    rcases Trail.mem_entries_also hbrings hx with hx | hx
    · rw [h.unstored] at hx
      exact hx
    · exact hx
  · exact h.entries_ages hages haccount
  · refine ⟨?_, h.unlisted.right⟩
    rw [← h.unlisted.left]
    exact Trail.listings_also fun hl => ClientStage.listings_of_moves hmove hfiles ▸ hl

theorem Confined.task (h : e.Confined P) (hformed : e.machine.Formed)
    (hkeeps : e.machine.Keeps w.machine) (hages : e.machine.Ages w.machine) {k : Nat} {t : Task π}
    (hk : k ∈ e.onAccount) (ht : e.machine.tasks.get? k = some t) {gateOpen : Bool}
    (hmove : t.Moves b gateOpen k e.machine w.machine)
    (hasks : ∀ asked r left, t.stage = .gathering (asked ++ [r]) left →
      P r.context r.project) :
    Confined P { e with world := w, tasks := e.tasks.also e.machine w.machine } := by
  have hbrings := Task.brings_of_moves hformed ht hmove
  have haccount : e.onAccount ⊆ e.own.tickets ∪ (e.tasks.also e.machine w.machine).tickets :=
    Set.union_subset_union_right _ (e.tasks.tickets_subset_also _ _)
  constructor
  · exact h.own.keeps hkeeps
  · refine h.tasks.also hkeeps hbrings ?_
    rintro t' ⟨asked, r, left, hstage, f, _, rfl, _⟩
    exact hasks asked r left hstage
  · intro u hu
    rcases Task.calls_of_moves hmove with hcalls | ⟨references, p, _, hp, hcalls⟩
    · rw [Trail.calls_also _ (hcalls.trans (List.append_nil _).symm), List.append_nil] at hu
      exact h.calls_keeps hkeeps haccount u hu
    · rw [Trail.calls_also _ hcalls] at hu
      rcases List.mem_append.mp hu with hu | hu
      · exact h.calls_keeps hkeeps haccount u hu
      · rcases hkeeps ht with ⟨t', ht', hctx, hid, _⟩
        refine ⟨k, haccount hk, t', p, _, ht', ?_, List.mem_singleton.mp hu⟩
        rw [hctx, hid]
        exact hp
  · exact h.unstored
  · intro x hx
    rcases Trail.mem_entries_also hbrings hx with hx | ⟨a, hstage, rfl⟩
    · exact h.entries_ages hages haccount x hx
    · have hm := Task.eq_of_storing hstage hmove
      refine ⟨k, haccount hk, { t with stage := .clearing (.ok a) }, a, ?_, rfl, rfl⟩
      change w.machine.tasks.get? k = _
      rw [hm]
      exact Machine.get?_setStage_self ht _
  · refine ⟨h.unlisted.left, ?_⟩
    rw [← h.unlisted.right]
    exact Trail.listings_also fun hl => Task.listing_of_moves hmove hl

/-- What the client and the tasks on its account ask for is of the same kind, so what they leave
behind is as well. -/
theorem Confined.step (h : e.Confined P) (htidy : e.world.Tidy)
    (hbelow : ∀ {ctx id c}, P ctx id → c ∈ ctx.graph.effectiveDependencies id → P ctx c)
    (hclient : ∀ c, e.world.clients[place]? = some c →
      (∀ r next, c.stage = .requesting r next → P r.context r.project) ∧
        ∀ key f ds next, c.stage ≠ .following (.file key f ds next))
    (hstep : e.Step b allowed place e') : e'.Confined P := by
  have hformed := htidy.formed
  have hkeeps := (World.formed_of_turn hformed hstep.turn).right
  have hages := hstep.turn.machine.left.ages hformed
  cases hstep with
  | @client before after c stage s hclients hplace hmove hspares =>
      have hc : e.world.clients[place]? = some c := by
        simp [hclients, ← hplace]
      rcases hclient c hc with ⟨hasks, hfiles⟩
      exact h.client hformed hkeeps hages hmove hasks hfiles
  | @task k s hk hjob hspares =>
      rcases h.of_onAccount hk with ⟨t, ht, hP⟩
      cases Schedule.steps_of_stepJob hjob with
      | @task _ t' m ht' hmove =>
          cases ht.symm.trans ht'
          refine h.task hformed hkeeps hages hk ht hmove fun asked r left hstage => ?_
          have hmem : r ∈ asked ++ [r] := List.mem_append_right _ (List.mem_singleton_self r)
          rcases htidy.requests (.task ht hstage hmem) ht with ⟨hctx, hdep⟩
          rw [hctx]
          exact hbelow hP hdep
  | other hturn hclient htasks =>
      exact ⟨h.own.keeps hkeeps, h.tasks.keeps hkeeps, h.calls_keeps hkeeps (Set.Subset.refl _),
        h.unstored, h.entries_ages hages (Set.Subset.refl _), h.unlisted⟩

end Errand
end Cache
end Ripple
