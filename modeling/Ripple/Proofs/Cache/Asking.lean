import Ripple.Proofs.Cache.Effects

/-!
# Who asks for what

Requests are made by clients, in batches, and by tasks that gather. Tasks are there
for requests, so every project with a task has been asked for by a client or in a
batch, or is below one that has.
-/

namespace Ripple
namespace Cache

variable {π : Type}

/-!
# New tasks
-/

/-- A task is there for what it was, or a request has got it off. -/
theorem Request.task_of_moves {environment : String} {r r' : Request π} {m m' : Machine π}
    (hmove : r.Moves environment m (r', m')) {k : Nat} {t : Task π}
    (ht : m'.tasks.get? k = some t) :
    m.tasks.get? k = some t ∨
      ∃ f, r.stage = .joining f ∧ t = ⟨r.context, r.project, f, .fresh⟩ := by
  rcases effect_of_moves hmove with ⟨htasks, _⟩ | ⟨f, hstage, hnext, _, _⟩
  · exact .inl (htasks ▸ ht)
  · cases hnext
    rcases get?_of_takeOff ht with ⟨_, rfl⟩ | ⟨_, ht⟩
    · exact .inr ⟨f, hstage, rfl⟩
    · exact .inl ht

/-- A move of a task changes its own stage only. A new task is there for the request
that the task has made last. -/
theorem Task.task_of_moves {b : Backend π} {gateOpen : Bool} {ticket : Nat} {t : Task π}
    {m m' : Machine π} (h : m.Formed) (ht : m.tasks.get? ticket = some t)
    (hmove : t.Moves b gateOpen ticket m m') {k : Nat} {t' : Task π}
    (ht' : m'.tasks.get? k = some t') :
    (k ≠ ticket ∧ m.tasks.get? k = some t') ∨ (k = ticket ∧ ∃ s, t' = { t with stage := s }) ∨
      ∃ asked r left f, t.stage = .gathering (asked ++ [r]) left ∧ r.stage = .joining f ∧
        t' = ⟨r.context, r.project, f, .fresh⟩ := by
  rcases hmove.shape with ⟨asked, r, r', m₁, left, hstage, hrequest, rfl⟩ |
    ⟨m₁, s, htasks, _, rfl⟩
  · have ht₁ := (Request.formed_of_moves h hrequest).right ht
    rcases Machine.get?_of_setStage ht₁ ht' with ⟨hk, rfl⟩ | ⟨hk, ht₁⟩
    · exact .inr (.inl ⟨hk, _, rfl⟩)
    · rcases Request.task_of_moves hrequest ht₁ with hold | ⟨f, hjoining, rfl⟩
      · exact .inl ⟨hk, hold⟩
      · exact .inr (.inr ⟨asked, r, left, f, hstage, hjoining, rfl⟩)
  · rcases Machine.get?_of_setStage (htasks ▸ ht) ht' with ⟨hk, rfl⟩ | ⟨hk, ht₁⟩
    · exact .inr (.inl ⟨hk, _, rfl⟩)
    · exact .inl ⟨hk, htasks ▸ ht₁⟩

/-- How a task has come to gather what it gathers. -/
inductive Task.Gathering (b : Backend π) (t : Task π) (m m' : Machine π) :
    List (Request π) → List ProjectId → Prop where
  | entered (hstage : t.stage = .fresh) :
      Gathering b t m m' [] (t.context.graph.effectiveDependencies t.project)
  | stepped {asked : List (Request π)} {r r' : Request π} {m₁ : Machine π}
      {left : List ProjectId} (hstage : t.stage = .gathering (asked ++ [r]) left)
      (hmove : r.Moves b.environment m (r', m₁)) (hkeeps : m₁.Keeps m') :
      Gathering b t m m' (asked ++ [r']) left
  | asked {asked : List (Request π)} {id : ProjectId} {left : List ProjectId}
      (hstage : t.stage = .gathering asked (id :: left))
      (hlast : ∀ r ∈ asked.getLast?, ¬ r.isActive) :
      Gathering b t m m' (asked ++ [.of t.context id]) left

theorem Task.gathering_of_moves {b : Backend π} {gateOpen : Bool} {ticket : Nat} {t : Task π}
    {m m' : Machine π} (h : m.Formed) (ht : m.tasks.get? ticket = some t)
    (hmove : t.Moves b gateOpen ticket m m') {t' : Task π} {asked : List (Request π)}
    {left : List ProjectId} (ht' : m'.tasks.get? ticket = some t')
    (hstage' : t'.stage = .gathering asked left) : t.Gathering b m m' asked left := by
  have hset {m₁ : Machine π} {s : TaskStage π} (htasks : m₁.tasks = m.tasks)
      (ht' : (m₁.setStage ticket s).tasks.get? ticket = some t') :
      s = .gathering asked left := by
    rw [Machine.get?_setStage_self (htasks ▸ ht)] at ht'
    cases ht'
    exact hstage'
  cases hmove with
  | entered hstage =>
      cases hset rfl ht'
      exact .entered hstage
  | stepped hstage hactive hrequest =>
      have ht₁ := (Request.formed_of_moves h hrequest).right ht
      rw [Machine.get?_setStage_self ht₁] at ht'
      cases ht'
      cases hstage'
      exact .stepped hstage hrequest (Machine.keeps_setStage _ _ _)
  | asked hstage hlast =>
      cases hset rfl ht'
      exact .asked hstage hlast
  | _ => exact nomatch hset rfl ht'

namespace World

/-- Who makes requests. -/
inductive Asker where
  | client
  | batch
  | task (ticket : Nat)

/-- All requests that are under way or have been answered. -/
inductive Asks (w : World π) : Asker → Request π → Prop where
  | client {c : Client π} {r : Request π} {next : Except Error (Resolved π) → Plan π (Reply π)}
      (hc : c ∈ w.clients) (hstage : c.stage = .requesting r next) : Asks w .client r
  | batch {number : Nat} {requests : List (Request π)} {r : Request π}
      (hbatch : w.schedule.batches.get? number = some requests) (hr : r ∈ requests) :
      Asks w .batch r
  | task {k : Nat} {t : Task π} {asked : List (Request π)} {left : List ProjectId}
      {r : Request π} (ht : w.machine.tasks.get? k = some t)
      (hstage : t.stage = .gathering asked left) (hr : r ∈ asked) : Asks w (.task k) r

/-- What has made someone ask for a project. -/
def Origin (w w' : World π) (ctx : Context) (id : ProjectId) : Asker → Prop
  | .client => ∃ c ∈ w.clients, ∃ next, c.stage = .following (.request ctx id next)
  | .batch => (ctx, id) ∈ w'.printed
  | .task k => ∃ t asked left, w.machine.tasks.get? k = some t ∧
      t.stage = .gathering asked (id :: left) ∧ ctx = t.context

/-- Where a request comes from that is there after a turn. -/
inductive Comes (backends : Set (Backend π)) (w w' : World π) (a : Asker) (r' : Request π) :
    Prop where
  | stays (hr : w.Asks a r')
  | made (hstage : r'.stage = .fresh) (horigin : w.Origin w' r'.context r'.project a)
  | moved {b : Backend π} {r : Request π} {m : Machine π} (hb : b ∈ backends)
      (hr : w.Asks a r)
      (hprinted : a = .client → r.stage = .fresh → (r.context, r.project) ∈ w'.printed)
      (hmove : r.Moves b.environment w.machine (r', m)) (hkeeps : m.Keeps w'.machine)

/-- Where a task comes from that is there after a turn. -/
inductive TaskComes (backends : Set (Backend π)) (w w' : World π) (k : Nat) (t' : Task π) :
    Prop where
  | stays (ht : w.machine.tasks.get? k = some t')
  | moved {b : Backend π} {gateOpen : Bool} {t : Task π} {s : TaskStage π} (hb : b ∈ backends)
      (ht : w.machine.tasks.get? k = some t)
      (hmove : t.Moves b gateOpen k w.machine w'.machine) (ht' : t' = { t with stage := s })
  | tookOff {a : Asker} {r : Request π} {f : Fingerprint} (hr : w.Asks a r)
      (hstage : r.stage = .joining f) (ht' : t' = ⟨r.context, r.project, f, .fresh⟩)

variable {w w' : World π} {backends : Set (Backend π)} {allowed : Set Upkeep} {b : Backend π}

/-!
# Jobs
-/

theorem task_of_steps (hb : b ∈ backends) (h : w.machine.Formed) {job : Job} {s : Schedule π}
    (hsteps : w.schedule.Steps b job s) {k : Nat} {t' : Task π}
    (ht' : s.machine.tasks.get? k = some t') :
    TaskComes backends w { w with schedule := s } k t' := by
  cases hsteps with
  | task ht hmove =>
      rcases Task.task_of_moves h ht hmove ht' with
        ⟨_, hold⟩ | ⟨rfl, stage, rfl⟩ | ⟨asked, r, left, f, hstage, hjoining, rfl⟩
      · exact .stays hold
      · exact .moved hb ht hmove rfl
      · refine .tookOff (.task ht hstage ?_) hjoining rfl
        exact List.mem_append_right _ (List.mem_singleton_self r)
  | @batch number before after r r' m hbatch hactive hmove =>
      rcases Request.task_of_moves hmove ht' with hold | ⟨f, hjoining, rfl⟩
      · exact .stays hold
      · refine .tookOff (.batch hbatch ?_) hjoining rfl
        exact List.mem_append_right _ List.mem_cons_self

theorem comes_of_steps (hb : b ∈ backends) (h : w.machine.Formed) {job : Job}
    {s : Schedule π} (hsteps : w.schedule.Steps b job s) {a : Asker} {r' : Request π}
    (hr' : Asks { w with schedule := s } a r') :
    Comes backends w { w with schedule := s } a r' := by
  cases hsteps with
  | @task ticket t m ht hmove =>
      cases hr' with
      | client hc hstage => exact .stays (.client hc hstage)
      | batch hbatch hr => exact .stays (.batch hbatch hr)
      | task ht' hstage' hr =>
          rcases Task.task_of_moves h ht hmove ht' with
            ⟨_, hold⟩ | ⟨rfl, _⟩ | ⟨_, _, _, _, _, _, rfl⟩
          · exact .stays (.task hold hstage' hr)
          · cases Task.gathering_of_moves h ht hmove ht' hstage' with
            | entered hstage => cases hr
            | @stepped before r _ _ _ hstage hrequest hkeeps =>
                rcases List.mem_append.mp hr with hr | hr
                · exact .stays (.task ht hstage (List.mem_append_left _ hr))
                · rw [List.mem_singleton.mp hr]
                  have hmem := List.mem_append_right before (List.mem_singleton_self r)
                  exact .moved hb (.task ht hstage hmem) (by rintro ⟨⟩) hrequest hkeeps
            | asked hstage hlast =>
                rcases List.mem_append.mp hr with hr | hr
                · exact .stays (.task ht hstage hr)
                · rw [List.mem_singleton.mp hr]
                  exact .made rfl ⟨t, _, _, ht, hstage, rfl⟩
          · cases hstage'
  | @batch number before after r r'' m hbatch hactive hmove =>
      cases hr' with
      | client hc hstage => exact .stays (.client hc hstage)
      | batch hbatch' hr =>
          simp only [Table.get?_insert] at hbatch'
          split at hbatch'
          · cases hbatch'
            rcases List.mem_append.mp hr with hr | hr
            · exact .stays (.batch hbatch (List.mem_append_left _ hr))
            · rcases List.mem_cons.mp hr with rfl | hr
              · have hmem : r ∈ before ++ r :: after :=
                  List.mem_append_right _ List.mem_cons_self
                exact .moved hb (.batch hbatch hmem) (by rintro ⟨⟩) hmove (.refl _)
              · exact .stays (.batch hbatch
                  (List.mem_append_right _ (List.mem_cons_of_mem _ hr)))
          · exact .stays (.batch hbatch' hr)
      | task ht' hstage' hr =>
          rcases Request.task_of_moves hmove ht' with hold | ⟨f, _, rfl⟩
          · exact .stays (.task hold hstage' hr)
          · cases hstage'

/-!
# Clients
-/

/-- Only a request that goes on changes tasks. -/
theorem tasks_of_moves {s s' : Schedule π} {stage stage' : ClientStage π}
    (h : stage.Moves b s stage' s') : s'.machine.tasks = s.machine.tasks ∨
      ∃ r next, stage = .requesting r next ∧ r.isActive ∧
        s'.machine = (r.step b.environment s.machine).2 := by
  cases h with
  | goesOn hactive => exact .inr ⟨_, _, rfl, hactive, rfl⟩
  | receives hanswer =>
      rcases Schedule.eq_of_answer hanswer with rfl | ⟨a, rfl⟩
      · exact .inl rfl
      · exact .inl rfl
  | _ => exact .inl rfl

theorem task_of_client {s : Schedule π} {c : Client π} {stage : ClientStage π}
    (hc : c ∈ w.clients) (hmove : c.stage.Moves b w.schedule stage s) {k : Nat} {t' : Task π}
    (ht' : s.machine.tasks.get? k = some t') :
    w.machine.tasks.get? k = some t' ∨ ∃ r f, w.Asks .client r ∧ r.stage = .joining f ∧
      t' = ⟨r.context, r.project, f, .fresh⟩ := by
  rcases tasks_of_moves hmove with htasks | ⟨r, next, hstage, hactive, hmachine⟩
  · exact .inl (htasks ▸ ht')
  · rw [hmachine] at ht'
    rcases Request.task_of_moves (Request.moves_of_step _ _ hactive) ht' with
      hold | ⟨f, hjoining, rfl⟩
    · exact .inl hold
    · exact .inr ⟨r, f, .client hc hstage, hjoining, rfl⟩

theorem task_of_work (hb : b ∈ backends) (h : w.machine.Formed) (hwork : w.Work b w') {k : Nat}
    {t' : Task π} (ht' : w'.machine.tasks.get? k = some t') : TaskComes backends w w' k t' := by
  cases hwork with
  | job hjob => exact task_of_steps hb h (Schedule.steps_of_stepJob hjob) ht'
  | client hclients hmove =>
      have hc := hclients ▸ List.mem_append_right _ List.mem_cons_self
      rcases task_of_client hc hmove ht' with hold | ⟨r, f, hr, hjoining, rfl⟩
      · exact .stays hold
      · exact .tookOff hr hjoining rfl

/-- A client is as it was, or has made a move. -/
theorem client_of_work (hwork : w.Work b w') {c' : Client π} (hc' : c' ∈ w'.clients) :
    c' ∈ w.clients ∨ ∃ c ∈ w.clients, c'.call = c.call ∧
      c.stage.Moves b w.schedule c'.stage w'.schedule ∧ c.stage.hashes ⊆ w'.printed := by
  cases hwork with
  | job hjob => exact .inl hc'
  | @client before after c stage s hclients hmove =>
      have hold {c : Client π} (hmem : c ∈ before ∨ c ∈ after) : c ∈ w.clients := by
        rw [hclients]
        rcases hmem with hmem | hmem
        · exact List.mem_append_left _ hmem
        · exact List.mem_append_right _ (List.mem_cons_of_mem _ hmem)
      rcases List.mem_append.mp hc' with hmem | hmem
      · exact .inl (hold (.inl hmem))
      · rcases List.mem_cons.mp hmem with rfl | hmem
        · have hc : c ∈ w.clients := hclients ▸ List.mem_append_right _ List.mem_cons_self
          exact .inr ⟨c, hc, rfl, hmove, List.subset_append_left _ _⟩
        · exact .inl (hold (.inr hmem))

theorem comes_of_work (hb : b ∈ backends) (h : w.machine.Formed) (hwork : w.Work b w')
    {a : Asker} {r' : Request π} (hr' : w'.Asks a r') : Comes backends w w' a r' := by
  cases hr' with
  | @client c' _ next hc' hstage' =>
      rcases client_of_work hwork hc' with hc | ⟨c, hc, _, hmove, hprinted⟩
      · exact .stays (.client hc hstage')
      · rw [hstage'] at hmove
        generalize hbefore : c.stage = stage at hmove hprinted
        generalize hafter : w'.schedule = s' at hmove
        cases hmove with
        | asks => exact .made rfl ⟨c, hc, _, hbefore⟩
        | @goesOn _ r _ hactive =>
            have hkeeps : (r.step b.environment w.schedule.machine).2.Keeps w'.machine := by
              rw [machine, hafter]
              exact .refl _
            refine .moved hb (.client hc hbefore) ?_ (Request.moves_of_step _ _ hactive) hkeeps
            intro _ hfresh
            rcases r with ⟨ctx, id, _⟩
            cases hfresh
            exact hprinted (List.mem_singleton_self _)
  | batch hbatch hr =>
      cases hwork with
      | job hjob => exact comes_of_steps hb h (Schedule.steps_of_stepJob hjob) (.batch hbatch hr)
      | client hclients hmove =>
          rw [(ClientStage.same_of_moves hmove).left] at hbatch
          exact .stays (.batch hbatch hr)
  | task ht' hstage' hr =>
      cases hwork with
      | job hjob =>
          exact comes_of_steps hb h (Schedule.steps_of_stepJob hjob) (.task ht' hstage' hr)
      | client hclients hmove =>
          have hc := hclients ▸ List.mem_append_right _ List.mem_cons_self
          rcases task_of_client hc hmove ht' with hold | ⟨_, _, _, _, rfl⟩
          · exact .stays (.task hold hstage' hr)
          · cases hstage'

/-!
# Turns
-/

/-- Clients, batches and tasks that are still there ask for what they did. -/
theorem Asks.stays {a : Asker} {r : Request π} (hr : w'.Asks a r)
    (hclients : ∀ c ∈ w'.clients, (∃ r next, c.stage = .requesting r next) → c ∈ w.clients)
    (hbatches : ∀ {number requests}, w'.schedule.batches.get? number = some requests →
      w.schedule.batches.get? number = some requests)
    (htasks : w'.machine.tasks = w.machine.tasks) : w.Asks a r := by
  cases hr with
  | client hc hstage => exact .client (hclients _ hc ⟨_, _, hstage⟩) hstage
  | batch hbatch hr => exact .batch (hbatches hbatch) hr
  | task ht hstage hr => exact .task (htasks ▸ ht) hstage hr

theorem comes_of_step (hb : b ∈ backends) (h : w.machine.Formed) (hstep : w.Step b w')
    {a : Asker} {r' : Request π} (hr' : w'.Asks a r') : Comes backends w w' a r' := by
  cases hstep with
  | work hwork => exact comes_of_work hb h hwork hr'
  | call call =>
      refine .stays (hr'.stays ?_ id rfl)
      rintro c hc ⟨r, next, hstage⟩
      rcases List.mem_append.mp hc with hc | hc
      · exact hc
      · rw [List.mem_singleton.mp hc] at hstage
        cases hstage
  | @cancel before after c hclients hin =>
      refine .stays (hr'.stays ?_ id rfl)
      rintro c' hc' ⟨r, next, hstage⟩
      rw [hclients]
      rcases List.mem_append.mp hc' with hc' | hc'
      · exact List.mem_append_left _ hc'
      · rcases List.mem_cons.mp hc' with rfl | hc'
        · cases hstage
        · exact List.mem_append_right _ (List.mem_cons_of_mem _ hc')
  | batch rows =>
      cases hr' with
      | client hc hstage => exact .stays (.client hc hstage)
      | task ht hstage hr => exact .stays (.task ht hstage hr)
      | batch hbatch hr =>
          simp only [Schedule.startBatch, Table.get?_insert] at hbatch
          split at hbatch
          · cases hbatch
            rcases List.mem_map.mp hr with ⟨row, hrow, rfl⟩
            exact .made rfl (List.mem_append_left _ hrow)
          · exact .stays (.batch hbatch hr)
  | abort number => exact .stays (hr'.stays (fun _ hc _ => hc) Tables.get?_of_get?_erase rfl)
  | leave hqueue hjob => exact .stays (hr'.stays (fun _ hc _ => hc) id rfl)
  | upkeep u => exact .stays (hr'.stays (fun _ hc _ => hc) id rfl)
  | tick elapsed => exact .stays (hr'.stays (fun _ hc _ => hc) id rfl)

theorem comes_of_turn (h : w.machine.Formed) (hturn : w.Turn backends allowed w') {a : Asker}
    {r' : Request π} (hr' : w'.Asks a r') : Comes backends w w' a r' := by
  cases hturn with
  | work hb hwork hspares => exact comes_of_work hb h hwork hr'
  | aside hb hstep hmachine => exact comes_of_step hb h hstep hr'
  | upkeep hu hspares => exact .stays (hr'.stays (fun _ hc _ => hc) id rfl)
  | tick elapsed => exact .stays (hr'.stays (fun _ hc _ => hc) id rfl)

theorem task_of_turn (h : w.machine.Formed) (hturn : w.Turn backends allowed w') {k : Nat}
    {t' : Task π} (ht' : w'.machine.tasks.get? k = some t') : TaskComes backends w w' k t' := by
  cases hturn with
  | work hb hwork hspares => exact task_of_work hb h hwork ht'
  | aside hb hstep hmachine => exact .stays (hmachine ▸ ht')
  | upkeep hu hspares => exact .stays ht'
  | tick elapsed => exact .stays ht'

theorem formed_of_turn (h : w.machine.Formed) (hturn : w.Turn backends allowed w') :
    w'.machine.Formed ∧ w.machine.Keeps w'.machine := by
  generalize hm' : w'.machine = m'
  have hturns := hturn.machine.left
  rw [hm'] at hturns
  cases hturns with
  | task hb ht hmove => exact Task.formed_of_moves h hmove
  | request hb hmove =>
      rcases Request.formed_of_moves h hmove with ⟨hformed, hadds⟩
      exact ⟨hformed, hadds.keeps⟩
  | upkeep hu =>
      exact ⟨h.of_tasks_eq rfl (Upkeep.within _ _).nextTicket, Machine.keeps_of_tasks_eq rfl⟩
  | aside htasks hentries hflights hticket =>
      exact ⟨h.of_tasks_eq htasks hticket, Machine.keeps_of_tasks_eq htasks⟩

theorem printed_subset_of_step (hstep : w.Step b w') : w.printed ⊆ w'.printed := by
  cases hstep with
  | work hwork =>
      cases hwork with
      | job hjob => exact List.Subset.refl _
      | client hclients hmove => exact List.subset_append_right _ _
  | batch rows => exact List.subset_append_right _ _
  | _ => exact List.Subset.refl _

theorem printed_subset_of_turn (hturn : w.Turn backends allowed w') :
    w.printed ⊆ w'.printed := by
  cases hturn with
  | work hb hwork hspares => exact printed_subset_of_step (.work hwork)
  | aside hb hstep hmachine => exact printed_subset_of_step hstep
  | upkeep hu hspares => exact List.Subset.refl _
  | tick elapsed => exact List.Subset.refl _

/-!
# What is wanted
-/

/-- The projects that have been asked for, and all that they depend on. -/
inductive Wanted (w : World π) (ctx : Context) : ProjectId → Prop where
  | printed {id : ProjectId} (h : (ctx, id) ∈ w.printed) : Wanted w ctx id
  | dependency {id c : ProjectId} (h : Wanted w ctx id)
      (hc : c ∈ ctx.graph.effectiveDependencies id) : Wanted w ctx c

theorem Wanted.mono {ctx : Context} {id : ProjectId} (h : w.Wanted ctx id)
    (hsub : w.printed ⊆ w'.printed) : w'.Wanted ctx id := by
  induction h with
  | printed h => exact .printed (hsub h)
  | dependency _ hc ih => exact .dependency ih hc

/-- A request is for what its asker wants. A client has nothing hashed before its
request goes on. -/
def Befits (w : World π) (r : Request π) : Asker → Prop
  | .client => r.stage = .fresh ∨ w.Wanted r.context r.project
  | .batch => w.Wanted r.context r.project
  | .task k => ∀ {t}, w.machine.tasks.get? k = some t →
      r.context = t.context ∧ r.project ∈ t.context.graph.effectiveDependencies t.project

/-- Requests and tasks are for what is wanted. -/
structure Tidy (w : World π) : Prop where
  formed : w.machine.Formed
  requests : ∀ {a r}, w.Asks a r → w.Befits r a
  tasks : ∀ {k t}, w.machine.tasks.get? k = some t → w.Wanted t.context t.project
  left : ∀ {k t asked left}, w.machine.tasks.get? k = some t →
    t.stage = .gathering asked left →
      ∀ c ∈ left, c ∈ t.context.graph.effectiveDependencies t.project

theorem tidy_start (settings : CacheSettings) : (start settings : World π).Tidy where
  formed := Machine.formed_new settings
  requests := by
    intro a r hr
    cases hr with
    | client hc hstage => cases hc
    | batch hbatch hr => cases hbatch
    | task ht hstage hr => cases ht
  tasks := nofun
  left := nofun

/-- Whoever has asked for a project wants it, once it is known. -/
theorem Tidy.wanted (h : w.Tidy) {a : Asker} {r : Request π} (hr : w.Asks a r)
    (hstage : a = .client → r.stage ≠ .fresh) : w.Wanted r.context r.project := by
  have hbefits := h.requests hr
  cases hr with
  | client hc hclient => exact hbefits.resolve_left (hstage rfl)
  | batch hbatch hr => exact hbefits
  | task ht htask hr =>
      rcases hbefits ht with ⟨hctx, hdep⟩
      rw [hctx]
      exact .dependency (h.tasks ht) hdep

theorem Befits.mono {a : Asker} {r : Request π} (h : w.Befits r a) (hr : w.Asks a r)
    (hsub : w.printed ⊆ w'.printed) (hkeeps : w.machine.Keeps w'.machine) : w'.Befits r a := by
  cases hr with
  | client hc hstage =>
      rcases h with hfresh | hwanted
      · exact .inl hfresh
      · exact .inr (hwanted.mono hsub)
  | batch hbatch hr => exact Wanted.mono h hsub
  | task ht hstage hr =>
      intro t' ht'
      rcases hkeeps ht with ⟨t'', ht'', hctx, hid, _⟩
      rw [ht'] at ht''
      cases ht''
      rw [hctx, hid]
      exact h ht

theorem Tidy.turn (h : w.Tidy) (hturn : w.Turn backends allowed w') : w'.Tidy := by
  have hsub := printed_subset_of_turn hturn
  rcases formed_of_turn h.formed hturn with ⟨hformed, hkeeps⟩
  constructor
  · exact hformed
  · intro a r' hr'
    cases comes_of_turn h.formed hturn hr' with
    | stays hr => exact (h.requests hr).mono hr hsub hkeeps
    | made hstage horigin =>
        cases a with
        | client => exact .inl hstage
        | batch => exact .printed horigin
        | task k =>
            rcases horigin with ⟨t, asked, left, ht, hgathering, hctx⟩
            intro t' ht'
            rcases hkeeps ht with ⟨t'', ht'', hctx', hid, _⟩
            rw [ht'] at ht''
            cases ht''
            rw [hctx', hid]
            exact ⟨hctx, h.left ht hgathering _ List.mem_cons_self⟩
    | @moved b r m hb hr hprinted hmove hm =>
        rcases hmove.context_eq with ⟨hctx, hid⟩
        have hbefits := (h.requests hr).mono hr hsub hkeeps
        cases a with
        | client =>
            right
            rw [hctx, hid]
            by_cases hfresh : r.stage = .fresh
            · exact .printed (hprinted rfl hfresh)
            · exact hbefits.resolve_left hfresh
        | batch =>
            change w'.Wanted r'.context r'.project
            rw [hctx, hid]
            exact hbefits
        | task k =>
            intro t' ht'
            rw [hctx, hid]
            exact hbefits ht'
  · intro k t' ht'
    cases task_of_turn h.formed hturn ht' with
    | stays ht => exact (h.tasks ht).mono hsub
    | moved hb ht hmove heq =>
        subst heq
        exact (h.tasks ht).mono hsub
    | tookOff hr hjoining heq =>
        subst heq
        refine (h.wanted hr ?_).mono hsub
        intro _ hfresh
        rw [hfresh] at hjoining
        cases hjoining
  · intro k t' asked left ht' hstage'
    cases task_of_turn h.formed hturn ht' with
    | stays ht => exact h.left ht hstage'
    | moved hb ht hmove heq =>
        subst heq
        cases Task.gathering_of_moves h.formed ht hmove ht' hstage' with
        | entered hstage => exact fun c hc => hc
        | stepped hstage hrequest hm =>
            have hleft := h.left ht hstage
            exact hleft
        | asked hstage hlast =>
            have hleft := h.left ht hstage
            exact fun c hc => hleft c (List.mem_cons_of_mem _ hc)
    | tookOff hr hjoining heq =>
        subst heq
        cases hstage'

theorem tidy_of_attained {settings : CacheSettings} (h : w.Attained backends allowed settings) :
    w.Tidy := by
  induction h with
  | refl => exact tidy_start settings
  | tail _ hturn ih => exact ih.turn hturn

end World
end Cache
end Ripple
