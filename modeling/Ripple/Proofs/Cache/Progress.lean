import Ripple.Proofs.Cache.Effort
import Ripple.Proofs.Cache.Sound

/-!
# Progress

Every job that can make a step is in the queue, and every step leaves less work,
so running the queue as long as its bound allows runs it to its end. Then no task
can make a step, and since a task only ever waits for tasks of projects below its
own, all tasks have ended.
-/

namespace Ripple
namespace Cache
namespace Schedule

variable {π : Type}

/-!
# Steps of a job
-/

inductive Steps (b : Backend π) (s : Schedule π) : Job → Schedule π → Prop where
  | task {ticket : Nat} {t : Task π} {m : Machine π}
      (ht : s.machine.tasks.get? ticket = some t)
      (hmove : t.Moves b s.gateOpen ticket s.machine m) :
      Steps b s (.task ticket)
        { s with
          machine := m
          queue := s.queue ++ takenOff s.machine m ++ s.woken s.machine m ticket }
  | batch {number : Nat} {before after : List (Request π)} {r r' : Request π}
      {m : Machine π} (hbatch : s.batches.get? number = some (before ++ r :: after))
      (hactive : r.isActive) (hmove : r.Moves b.environment s.machine (r', m)) :
      Steps b s (.batch number)
        { s with
          machine := m
          queue := s.queue ++ takenOff s.machine m
          batches := s.batches.insert number (before ++ r' :: after) }

theorem stepFirst_cases {environment : String} {m m' : Machine π}
    {requests requests' : List (Request π)}
    (h : stepFirst environment m requests = some (requests', m')) :
    ∃ before r r' after, requests = before ++ r :: after ∧ r.isActive ∧
      r.Moves environment m (r', m') ∧ requests' = before ++ r' :: after := by
  induction requests generalizing requests' with
  | nil => cases h
  | cons r rest ih =>
      unfold stepFirst at h
      by_cases hactive : r.isActive
      · rw [if_pos hactive] at h
        cases h
        exact ⟨[], r, _, rest, rfl, hactive, Request.moves_of_step _ _ hactive, rfl⟩
      · rw [if_neg hactive, Option.map_eq_some_iff] at h
        rcases h with ⟨⟨rest', m₁⟩, hrest, heq⟩
        cases heq
        rcases ih hrest with ⟨before, r', r'', after, rfl, hactive', hmove, rfl⟩
        exact ⟨r :: before, r', r'', after, rfl, hactive', hmove, rfl⟩

theorem stepFirst_isSome_iff {environment : String} {m : Machine π}
    {requests : List (Request π)} :
    (stepFirst environment m requests).isSome ↔ ∃ r ∈ requests, r.isActive := by
  induction requests with
  | nil => simp [stepFirst]
  | cons r rest ih =>
      unfold stepFirst
      by_cases hactive : r.isActive
      · simp [hactive]
      · simp [hactive, ih]

theorem steps_of_stepJob {b : Backend π} {s s' : Schedule π} {job : Job}
    (h : s.stepJob b job = some s') : s.Steps b job s' := by
  cases job with
  | task ticket =>
      rw [stepJob, Option.map_eq_some_iff] at h
      rcases h with ⟨m, hstep, rfl⟩
      rcases Task.moves_of_step hstep with ⟨t, ht, hmove⟩
      exact .task ht hmove
  | batch number =>
      simp only [stepJob, Option.bind_eq_bind, Option.bind_eq_some_iff, Option.some.injEq] at h
      rcases h with ⟨requests, hbatch, ⟨requests', m⟩, hstep, rfl⟩
      rcases stepFirst_cases hstep with ⟨before, r, r', after, rfl, hactive, hmove, rfl⟩
      exact .batch hbatch hactive hmove

theorem stepJob_batch_isSome_iff {b : Backend π} {s : Schedule π} {number : Nat} :
    (s.stepJob b (.batch number)).isSome ↔
      ∃ requests, s.batches.get? number = some requests ∧ ∃ r ∈ requests, r.isActive := by
  cases hbatch : s.batches.get? number with
  | none => simp [stepJob, hbatch]
  | some requests =>
      cases hstep : stepFirst b.environment s.machine requests with
      | none =>
          have hnone := mt stepFirst_isSome_iff.mpr (by rw [hstep]; simp)
          simpa [stepJob, hbatch, hstep] using hnone
      | some next =>
          have hsome := stepFirst_isSome_iff.mp (by rw [hstep]; rfl)
          simpa [stepJob, hbatch, hstep] using hsome

/-!
# Work
-/

/-- Tickets and the numbers of batches are given out once. -/
structure Formed (s : Schedule π) : Prop where
  machine : s.machine.Formed
  batches : s.batches.keys.Nodup

/-- Nobody is woken for a batch, so what it waits for is no work. -/
def batchWork (requests : List (Request π)) : Nat :=
  Number.total (requests.map (Request.work fun _ => true))

def work (s : Schedule π) : Nat :=
  s.machine.work + Number.total (s.batches.values.map batchWork) + s.queue.length

theorem length_takenOff (m m' : Machine π) :
    (takenOff m m').length = m'.tables.nextTicket - m.tables.nextTicket := by
  simp [takenOff]

theorem woken_eq_nil {s : Schedule π} {m m' : Machine π} (h : m'.outcome? = m.outcome?)
    (ticket : Nat) : s.woken m m' ticket = [] := by
  unfold woken
  rw [if_neg]
  rw [h]
  cases m.outcome? ticket <;> simp

theorem length_woken_le (s : Schedule π) (m m' : Machine π) (ticket : Nat) :
    (s.woken m m' ticket).length ≤
      (m'.tasks.filter fun _ t => t.stage.waitsFor ticket).keys.length := by
  unfold woken
  split
  · refine Nat.le_trans (List.length_filter_le _ _) ?_
    rw [List.length_map]
  · exact Nat.zero_le _

theorem Formed.steps {b : Backend π} {s s' : Schedule π} {job : Job} (h : s.Formed)
    (hstep : s.Steps b job s') : s'.Formed := by
  cases hstep with
  | task ht hmove => exact ⟨(Task.formed_of_moves h.machine hmove).left, h.batches⟩
  | batch hbatch hactive hmove =>
      exact ⟨(Request.formed_of_moves h.machine hmove).left, Table.nodup_keys_insert h.batches _ _⟩

theorem work_lt_of_steps {b : Backend π} {s s' : Schedule π} {job : Job} (h : s.Formed)
    (hstep : s.Steps b job s') : s'.work < s.work := by
  cases hstep with
  | @task ticket t m ht hmove =>
      have hwork := Task.work_of_moves h.machine ht hmove s.machine.isAnnounced
      have hwoken : m.work + (s.woken s.machine m ticket).length ≤
          m.workAs s.machine.isAnnounced := by
        rcases Task.outcome?_of_moves h.machine ht hmove with hsame | ⟨o, hstage, hm⟩
        · rw [woken_eq_nil hsame, Machine.work, Machine.isAnnounced_of_outcome?_eq hsame]
          exact Nat.le_refl _
        · have hnew : s.machine.isAnnounced ticket = false := by
            simp [Machine.isAnnounced, Machine.outcome?, ht, hstage, TaskStage.outcome?]
          have hann : m.isAnnounced = alsoAnnounced s.machine.isAnnounced ticket := by
            funext k
            rw [hm, Machine.isAnnounced, Machine.outcome?_setStage ht]
            by_cases hk : k = ticket <;>
              simp [hk, alsoAnnounced, TaskStage.outcome?, Machine.isAnnounced]
          have hlen := s.length_woken_le s.machine m ticket
          have hle := Machine.workAs_announce (m := m) hnew
          rw [Machine.work, hann]
          omega
      have hticket := Task.nextTicket_le_of_moves hmove
      have hself : s.machine.work = s.machine.workAs s.machine.isAnnounced := rfl
      simp only [work, List.length_append, length_takenOff]
      omega
  | @batch number before after r r' m hbatch hactive hmove =>
      have hwork := Request.machineWork_of_moves h.machine hmove
      have hticket := Request.nextTicket_le_of_moves hmove
      have hbatches := Table.total_insert h.batches hbatch (before ++ r' :: after) batchWork
      simp only [batchWork, List.map_append, List.map_cons, Number.total_append,
        Number.total_cons] at hbatches
      simp only [work, List.length_append, length_takenOff]
      omega

/-!
# The queue
-/

/-- Every job that can make a step is in the queue. -/
def Queued (b : Backend π) (s : Schedule π) : Prop :=
  ∀ job, (s.stepJob b job).isSome → job ∈ s.queue

theorem gathered?_congr {m m' : Machine π} {asked : List (Request π)}
    (h : ∀ r ∈ asked, r.result? m' = r.result? m) :
    Task.gathered? m' asked = Task.gathered? m asked := by
  induction asked with
  | nil => rfl
  | cons r rest ih =>
      rw [List.forall_mem_cons] at h
      simp only [Task.gathered?, h.left, ih h.right]

/-- A task that can go on again had been waiting for what has become known. -/
theorem waitsFor_of_step {b : Backend π} {gateOpen : Bool} {k : Nat} {t : Task π}
    {m m' : Machine π} (ht : m'.tasks.get? k = some t) (hwaits : t.Waits gateOpen m)
    (hstep : (Task.step b gateOpen k m').isSome) :
    ∃ ticket, t.stage.waitsFor ticket ∧ m'.outcome? ticket ≠ m.outcome? ticket := by
  have hmoves : ¬ t.Waits gateOpen m' := by
    intro hwaits'
    rw [Task.step_of_waits ht hwaits'] at hstep
    cases hstep
  cases hwaits with
  | ended hstage => exact absurd (.ended hstage) hmoves
  | compiling hstage hclosed => exact absurd (.compiling hstage hclosed) hmoves
  | @gathering asked hstage hlast hgathered =>
      by_contra hnone
      apply hmoves
      refine .gathering hstage hlast (Eq.trans (gathered?_congr ?_) hgathered)
      intro r hr
      unfold Request.result?
      cases hrequest : r.stage with
      | waiting f ticket =>
          have hwaits : t.stage.waitsFor ticket :=
            TaskStage.waitsFor_iff.mpr ⟨asked, [], hstage, r, hr, f, hrequest⟩
          have hsame : m'.outcome? ticket = m.outcome? ticket := by
            by_contra hdiffers
            exact hnone ⟨ticket, hwaits, hdiffers⟩
          simp only [hsame]
      | _ => rfl

theorem mem_takenOff {m m' : Machine π} {k : Nat} (hle : m.tables.nextTicket ≤ k)
    (hlt : k < m'.tables.nextTicket) : Job.task k ∈ takenOff m m' := by
  unfold takenOff
  refine List.mem_map.mpr ⟨k - m.tables.nextTicket, List.mem_range.mpr (by omega), ?_⟩
  rw [Nat.add_sub_cancel' hle]

theorem mem_takenOff_of_new {b : Backend π} {gateOpen : Bool} {m m' : Machine π} {k : Nat}
    (h : m.Formed) (h' : m'.Formed) (hnew : m.tasks.get? k = none)
    (hstep : (Task.step b gateOpen k m').isSome) : Job.task k ∈ takenOff m m' := by
  apply mem_takenOff
  · by_contra hlt
    rcases Table.mem_keys_iff.mp (h.tickets.mpr (Nat.lt_of_not_le hlt)) with ⟨t, ht⟩
    rw [hnew] at ht
    cases ht
  · cases ht : m'.tasks.get? k with
    | none =>
        rw [Task.step_of_no_task ht] at hstep
        cases hstep
    | some t => exact h'.lt_nextTicket ht

theorem waits_of_not_step {b : Backend π} {s : Schedule π} {k : Nat} {t : Task π}
    (ht : s.machine.tasks.get? k = some t) (hstep : ¬ (s.stepJob b (.task k)).isSome) :
    t.Waits s.gateOpen s.machine := by
  apply Task.waits_of_step (b := b) ht
  rw [stepJob, Option.isSome_map, Option.not_isSome_iff_eq_none] at hstep
  exact hstep

theorem mem_woken {s : Schedule π} {m m' : Machine π} {ticket k : Nat} {t : Task π}
    (hbefore : m.outcome? ticket = none) (hafter : (m'.outcome? ticket).isSome)
    (ht : m'.tasks.get? k = some t) (hwaits : t.stage.waitsFor ticket)
    (hqueue : Job.task k ∉ s.queue) : Job.task k ∈ s.woken m m' ticket := by
  unfold woken
  rw [if_pos (by simp [hbefore, hafter]), List.mem_filter]
  refine ⟨List.mem_map.mpr ⟨k, List.mem_map.mpr ⟨(k, t), ?_, rfl⟩, rfl⟩, by simpa using hqueue⟩
  exact List.mem_filter.mpr ⟨Table.mem_rows_of_get? ht, hwaits⟩

theorem mem_queue_of_extends {b : Backend π} {s : Schedule π} {m : Machine π} {k : Nat}
    (hqueued : s.Queued b) (h : s.machine.Formed) (hext : s.machine.Extends m)
    (hstep : (Task.step b s.gateOpen k m).isSome) :
    Job.task k ∈ s.queue ++ takenOff s.machine m := by
  by_cases hbefore : (s.stepJob b (.task k)).isSome
  · exact List.mem_append_left _ (hqueued _ hbefore)
  · apply List.mem_append_right
    cases hk : s.machine.tasks.get? k with
    | none => exact mem_takenOff_of_new h hext.formed hk hstep
    | some t =>
        rcases waitsFor_of_step (hext.adds hk) (waits_of_not_step hk hbefore) hstep with
          ⟨waited, _, hdiffers⟩
        exact absurd (congrFun hext.outcome waited) hdiffers

theorem mem_queue_of_moves {b : Backend π} {s : Schedule π} {m : Machine π} {ticket k : Nat}
    {t : Task π} (hqueued : s.Queued b) (h : s.machine.Formed)
    (ht : s.machine.tasks.get? ticket = some t)
    (hmove : t.Moves b s.gateOpen ticket s.machine m) (hne : k ≠ ticket)
    (hstep : (Task.step b s.gateOpen k m).isSome) :
    Job.task k ∈ s.queue ++ takenOff s.machine m ++ s.woken s.machine m ticket := by
  by_cases hbefore : (s.stepJob b (.task k)).isSome
  · exact List.mem_append_left _ (List.mem_append_left _ (hqueued _ hbefore))
  · cases hk : s.machine.tasks.get? k with
    | none =>
        have hformed := (Task.formed_of_moves h hmove).left
        exact List.mem_append_left _
          (List.mem_append_right _ (mem_takenOff_of_new h hformed hk hstep))
    | some other =>
        have hother := Task.get?_of_moves h hmove hne hk
        rcases waitsFor_of_step hother (waits_of_not_step hk hbefore) hstep with
          ⟨waited, hfor, hdiffers⟩
        rcases Task.outcome?_of_moves h ht hmove with hsame | ⟨o, hstage, hm⟩
        · exact absurd (congrFun hsame waited) hdiffers
        · have hwaited : waited = ticket := by
            by_contra hdistinct
            apply hdiffers
            rw [hm, Machine.outcome?_setStage ht, if_neg hdistinct]
          subst hwaited
          by_cases hqueue : Job.task k ∈ s.queue
          · exact List.mem_append_left _ (List.mem_append_left _ hqueue)
          · apply List.mem_append_right
            refine mem_woken ?_ ?_ hother hfor hqueue
            · simp [Machine.outcome?, ht, hstage, TaskStage.outcome?]
            · rw [hm, Machine.outcome?_setStage ht, if_pos rfl]
              rfl

theorem Queued.steps {b : Backend π} {s s' : Schedule π} {job : Job} (hqueued : s.Queued b)
    (h : s.Formed) (hjob : s.stepJob b job = some s') : s'.Queued b := by
  have hstepped := hqueued job (by rw [hjob]; rfl)
  intro job' hjob'
  cases steps_of_stepJob hjob with
  | @task ticket t m ht hmove =>
      cases job' with
      | batch number =>
          rw [stepJob_batch_isSome_iff] at hjob'
          have hmem := hqueued (.batch number) (stepJob_batch_isSome_iff.mpr hjob')
          exact List.mem_append_left _ (List.mem_append_left _ hmem)
      | task k =>
          rw [stepJob, Option.isSome_map] at hjob'
          by_cases hk : k = ticket
          · exact List.mem_append_left _ (List.mem_append_left _ (hk ▸ hstepped))
          · exact mem_queue_of_moves hqueued h.machine ht hmove hk hjob'
  | @batch number before after r r' m hbatch hactive hmove =>
      cases job' with
      | batch number' =>
          apply List.mem_append_left
          by_cases hnumber : number' = number
          · exact hnumber ▸ hstepped
          · rw [stepJob_batch_isSome_iff] at hjob'
            rcases hjob' with ⟨requests, hrequests, hr⟩
            rw [Table.get?_insert_of_ne _ hnumber] at hrequests
            exact hqueued _ (stepJob_batch_isSome_iff.mpr ⟨requests, hrequests, hr⟩)
      | task k =>
          rw [stepJob, Option.isSome_map] at hjob'
          exact mem_queue_of_extends hqueued h.machine
            (Request.extends_of_moves h.machine hmove) hjob'

theorem Queued.pop {b : Backend π} {s : Schedule π} {job : Job} {rest : List Job}
    (h : s.Queued b) (hqueue : s.queue = job :: rest) (hjob : s.stepJob b job = none) :
    ({ s with queue := rest } : Schedule π).Queued b := by
  intro job' hjob'
  have hsame : (s.stepJob b job').isSome := by
    cases job' with
    | task ticket =>
        rw [stepJob, Option.isSome_map] at hjob' ⊢
        exact hjob'
    | batch number =>
        rw [stepJob_batch_isSome_iff] at hjob' ⊢
        exact hjob'
  have hmem := h job' hsame
  rw [hqueue] at hmem
  rcases List.mem_cons.mp hmem with rfl | hrest
  · rw [hjob] at hsame
    cases hsame
  · exact hrest

/-!
# Running the queue
-/

section

variable (b : Backend π) (streams : Set (List UInt8))

/-- What the tasks and the batches have in hand goes back to uncached builds. -/
structure Sound (s : Schedule π) : Prop where
  machine : s.machine.Sound b streams
  requests : ∀ {number requests}, s.batches.get? number = some requests →
    ∀ r ∈ requests, r.Sound b streams s.machine

/-- The invariant of everything that the cache does while the gate is open. -/
structure Good (s : Schedule π) : Prop where
  sound : s.Sound b streams
  formed : s.Formed
  queued : s.Queued b
  gateOpen : s.gateOpen

end

variable {b : Backend π} {streams : Set (List UInt8)}

theorem Steps.keeps {s s' : Schedule π} {job : Job} (h : s.Formed) (hstep : s.Steps b job s') :
    s.machine.Keeps s'.machine := by
  cases hstep with
  | task ht hmove => exact (Task.formed_of_moves h.machine hmove).right
  | batch hbatch hactive hmove => exact (Request.formed_of_moves h.machine hmove).right.keeps

theorem Sound.steps (hfree : CollisionFree b.environment streams) {s s' : Schedule π}
    {job : Job} (hsound : s.Sound b streams) (h : s.Formed) (hstep : s.Steps b job s') :
    s'.Sound b streams := by
  have hkeeps := hstep.keeps h
  cases hstep with
  | task ht hmove =>
      exact ⟨Task.sound_of_moves hfree hsound.machine ht hmove,
        fun hbatch r hr => (hsound.requests hbatch r hr).keeps hkeeps⟩
  | @batch number before after r r' m hbatch hactive hmove =>
      have hr : r.Sound b streams s.machine :=
        hsound.requests hbatch r (List.mem_append_right _ List.mem_cons_self)
      rcases Request.sound_of_moves hfree hsound.machine hr hmove with ⟨hmachine, hr'⟩
      refine ⟨hmachine, ?_⟩
      intro number' requests hbatch' x hx
      simp only [Table.get?_insert] at hbatch'
      by_cases hnumber : number' = number
      · rw [if_pos hnumber] at hbatch'
        cases hbatch'
        rcases List.mem_append.mp hx with hx | hx
        · exact (hsound.requests hbatch x (List.mem_append_left _ hx)).keeps hkeeps
        · rcases List.mem_cons.mp hx with rfl | hx
          · exact hr'
          · exact (hsound.requests hbatch x
              (List.mem_append_right _ (List.mem_cons_of_mem _ hx))).keeps hkeeps
      · rw [if_neg hnumber] at hbatch'
        exact (hsound.requests hbatch' x hx).keeps hkeeps

theorem Good.stepJob (hfree : CollisionFree b.environment streams) {s s' : Schedule π}
    {job : Job} (h : s.Good b streams) (hjob : s.stepJob b job = some s') :
    s'.Good b streams := by
  have hstep := steps_of_stepJob hjob
  refine ⟨h.sound.steps hfree h.formed hstep, h.formed.steps hstep,
    h.queued.steps h.formed hjob, ?_⟩
  cases hstep <;> exact h.gateOpen

theorem Good.leave {s : Schedule π} (h : s.Good b streams) {job : Job} {rest : List Job}
    (hqueue : s.queue = job :: rest) (hjob : s.stepJob b job = none) :
    ({ s with queue := rest } : Schedule π).Good b streams :=
  ⟨⟨h.sound.machine, h.sound.requests⟩, ⟨h.formed.machine, h.formed.batches⟩,
    h.queued.pop hqueue hjob, h.gateOpen⟩

theorem runQueue_good (hfree : CollisionFree b.environment streams) {n : Nat}
    {s : Schedule π} (h : s.Good b streams) (hwork : s.work ≤ n) :
    (runQueue b n s).Good b streams ∧ (runQueue b n s).queue = [] ∧
      s.machine.Keeps (runQueue b n s).machine := by
  induction n generalizing s with
  | zero =>
      have hqueue : s.queue = [] := by
        apply List.eq_nil_of_length_eq_zero
        simp only [work] at hwork
        omega
      exact ⟨h, hqueue, .refl _⟩
  | succ n ih =>
      unfold runQueue
      cases hqueue : s.queue with
      | nil => exact ⟨h, hqueue, .refl _⟩
      | cons job rest =>
          simp only
          cases hjob : s.stepJob b job with
          | none =>
              have hpop : ({ s with queue := rest } : Schedule π).work < s.work := by
                simp [work, hqueue]
              exact ih (h.leave hqueue hjob) (by omega)
          | some s' =>
              have hstep := steps_of_stepJob hjob
              have hlt := work_lt_of_steps h.formed hstep
              rcases ih (h.stepJob hfree hjob) (by omega) with ⟨hgood, hempty, hkeeps⟩
              exact ⟨hgood, hempty, (hstep.keeps h.formed).trans hkeeps⟩

/-!
# The bound on the steps
-/

theorem work_le_of_request (announced : Nat → Bool) (r : Request π) :
    r.work announced ≤ r.context.effort r.project + 5 := by
  rw [Context.effort_eq_cost]
  unfold Request.work
  cases r.stage with
  | waiting f ticket =>
      simp only
      split <;> omega
  | _ =>
      simp only
      omega

theorem work_le_of_task {m : Machine π} {t : Task π} (h : t.Sound b streams m)
    (announced : Nat → Bool) :
    t.work announced ≤ if t.stage.isEnded then 0 else t.context.effort t.project := by
  have hcost := Context.effort_eq_cost t.context t.project
  have hbelow := Number.total_map_le (f := fun c => t.context.cost c + 6)
    (g := fun c => t.context.cost c + 8) (t.context.graph.effectiveDependencies t.project)
    (by intro c _; omega)
  rw [Context.cost_eq] at hcost
  have hsound := h.stage
  unfold Task.work
  cases hstage : t.stage with
  | fresh =>
      simp only [TaskStage.work, TaskStage.isEnded]
      simp only [Bool.false_eq_true, if_false]
      omega
  | gathering asked left =>
      rw [hstage] at hsound
      have hasked : Number.total (asked.map (Request.work announced)) ≤
          Number.total ((asked.map Request.project).map fun c => t.context.cost c + 6) := by
        rw [List.map_map]
        apply Number.total_map_le
        intro r hr
        have hle := work_le_of_request announced r
        rw [Context.effort_eq_cost, hsound.context r hr] at hle
        simp only [Function.comp_apply]
        omega
      have hall := congrArg (fun ids => Number.total (ids.map fun c => t.context.cost c + 6))
        hsound.projects
      simp only [List.map_append, Number.total_append] at hall
      simp only [TaskStage.work, TaskStage.isEnded, Bool.false_eq_true, if_false]
      omega
  | ended o =>
      simp [TaskStage.work, TaskStage.isEnded]
  | _ =>
      simp only [TaskStage.work, TaskStage.isEnded, Bool.false_eq_true, if_false]
      omega

theorem batchWork_le (requests : List (Request π)) :
    batchWork requests ≤ Number.total (requests.map fun r =>
      if r.isActive then r.context.effort r.project + 8 else 0) := by
  apply Number.total_map_le
  intro r _
  have hle := work_le_of_request (fun _ => true) r
  by_cases hactive : r.isActive
  · rw [if_pos hactive]
    omega
  · rw [if_neg hactive]
    unfold Request.work
    cases hstage : r.stage <;> simp [Request.isActive, hstage] at hactive ⊢

theorem total_flatten (xss : List (List Nat)) :
    Number.total xss.flatten = Number.total (xss.map Number.total) := by
  induction xss with
  | nil => rfl
  | cons xs xss ih => simp [ih]

theorem work_le_effort {s : Schedule π} (h : s.Sound b streams) : s.work ≤ s.effort := by
  have htasks : s.machine.work ≤ Number.total (s.machine.tasks.values.map fun t =>
      if t.stage.isEnded then 0 else t.context.effort t.project) := by
    apply Number.total_map_le
    intro t ht
    rcases List.mem_map.mp ht with ⟨row, hrow, rfl⟩
    have hget := Table.get?_of_mem_rows h.machine.formed.nodup (k := row.1) (v := row.2) hrow
    exact work_le_of_task (h.machine.tasks hget) _
  have hbatches : Number.total (s.batches.values.map batchWork) ≤
      Number.total (s.batches.values.flatten.map fun r =>
        if r.isActive then r.context.effort r.project + 8 else 0) := by
    rw [List.map_flatten, total_flatten, List.map_map]
    apply Number.total_map_le
    intro requests _
    exact batchWork_le requests
  unfold work effort
  simp only
  omega

/-!
# Coming to an end
-/

theorem exists_unknown {m : Machine π} {asked : List (Request π)}
    (h : Task.gathered? m asked = none) : ∃ r ∈ asked, r.result? m = none := by
  by_contra hnone
  push Not at hnone
  have hsome : ∀ rest, (∀ r ∈ rest, r.result? m ≠ none) → (Task.gathered? m rest).isSome := by
    intro rest hrest
    induction rest with
    | nil => rfl
    | cons r rest ih =>
        rw [List.forall_mem_cons] at hrest
        rcases Option.ne_none_iff_exists'.mp hrest.left with ⟨result, hresult⟩
        rcases Option.isSome_iff_exists.mp (ih hrest.right) with ⟨more, hmore⟩
        cases result <;> cases more <;> simp [Task.gathered?, hresult, hmore]
  have hgathered := hsome asked hnone
  rw [h] at hgathered
  cases hgathered

theorem waiting_of_unknown {m : Machine π} {r : Request π} (hpassive : ¬ r.isActive)
    (h : r.result? m = none) : ∃ f ticket, r.stage = .waiting f ticket ∧
      m.outcome? ticket = none := by
  unfold Request.result? at h
  cases hstage : r.stage with
  | waiting f ticket =>
      rw [hstage] at h
      exact ⟨f, ticket, rfl, by simpa using h⟩
  | settled result =>
      rw [hstage] at h
      cases h
  | _ => simp [Request.isActive, hstage] at hpassive

/-- If no task can make a step then all have ended: each waits for tasks of
projects that are less deep than its own. -/
theorem ended_of_waits (hfree : CollisionFree b.environment streams) {m : Machine π}
    (hm : m.Sound b streams)
    (hwaits : ∀ ticket t, m.tasks.get? ticket = some t → t.Waits true m)
    {ticket : Nat} {t : Task π} (ht : m.tasks.get? ticket = some t) :
    ∃ o, t.stage = .ended o := by
  induction hdepth : t.context.depth t.project using Nat.strong_induction_on
    generalizing ticket t with
  | h n ih =>
      have hsound := hm.tasks ht
      cases hwaits ticket t ht with
      | ended hstage => exact ⟨_, hstage⟩
      | compiling hstage hclosed => cases hclosed
      | @gathering asked hstage hlast hgathered =>
          exfalso
          have hstaged := hsound.stage
          rw [hstage] at hstaged
          rcases exists_unknown hgathered with ⟨r, hr, hunknown⟩
          have hpassive := not_active_of_last hstaged.passive hlast r hr
          rcases waiting_of_unknown hpassive hunknown with ⟨f, waited, hrequest, hnone⟩
          have hrsound := hstaged.requests r hr
          have hrstage := hrsound.stage
          rw [hrequest] at hrstage
          rcases hrstage with ⟨hprint, t', ht', rfl⟩
          have hdep : r.project ∈ t.context.graph.effectiveDependencies t.project := by
            rw [← hstaged.projects, List.append_nil]
            exact List.mem_map_of_mem hr
          have heq : t'.context.depth t'.project = r.context.depth r.project :=
            (hm.tasks ht').takenOf.depth_eq hfree ⟨hrsound.covered, hprint⟩
          have hlt := Context.depth_lt hdep
          rw [hstaged.context r hr] at heq
          rcases ih _ (by omega) ht' rfl with ⟨o, ho⟩
          simp [Machine.outcome?, ht', ho, TaskStage.outcome?] at hnone

theorem result?_isSome_of_ended {m : Machine π} {r : Request π} (hr : r.Sound b streams m)
    (hpassive : ¬ r.isActive)
    (hended : ∀ ticket t, m.tasks.get? ticket = some t → ∃ o, t.stage = .ended o) :
    (r.result? m).isSome := by
  by_contra hunknown
  rw [Option.not_isSome_iff_eq_none] at hunknown
  rcases waiting_of_unknown hpassive hunknown with ⟨f, ticket, hstage, hnone⟩
  have hsound := hr.stage
  rw [hstage] at hsound
  rcases hsound with ⟨_, t, ht, _⟩
  rcases hended ticket t ht with ⟨o, ho⟩
  simp [Machine.outcome?, ht, ho, TaskStage.outcome?] at hnone

/-- When nothing is left to run, every task has ended. -/
theorem settle_good (hfree : CollisionFree b.environment streams) {s : Schedule π}
    (h : s.Good b streams) :
    (s.settle b).Good b streams ∧ s.machine.Keeps (s.settle b).machine ∧
      ∀ ticket t, (s.settle b).machine.tasks.get? ticket = some t → ∃ o, t.stage = .ended o := by
  rcases runQueue_good hfree h (work_le_effort h.sound) with ⟨hgood, hqueue, hkeeps⟩
  refine ⟨hgood, hkeeps, fun ticket t ht => ?_⟩
  refine ended_of_waits hfree hgood.sound.machine ?_ ht
  intro k other hk
  have hopen : true = (runQueue b s.effort s).gateOpen := hgood.gateOpen.symm
  rw [hopen]
  apply waits_of_not_step (b := b) hk
  intro hstep
  have hmem := hgood.queued _ hstep
  rw [hqueue] at hmem
  cases hmem

/-!
# Requests of callers
-/

/-- Nothing that a caller does takes a task's turn. -/
theorem Good.after {s : Schedule π} {m : Machine π} (h : s.Good b streams)
    (hm : m.Sound b streams) (hext : s.machine.Extends m) : (s.after m).Good b streams where
  sound := ⟨hm, fun hbatch r hr => (h.sound.requests hbatch r hr).keeps hext.adds.keeps⟩
  formed := ⟨hext.formed, h.formed.batches⟩
  queued := by
    intro job hjob
    cases job with
    | batch number =>
        rw [stepJob_batch_isSome_iff] at hjob
        exact List.mem_append_left _ (h.queued _ (stepJob_batch_isSome_iff.mpr hjob))
    | task k =>
        rw [Schedule.stepJob, Option.isSome_map] at hjob
        exact mem_queue_of_extends h.queued h.formed.machine hext hjob
  gateOpen := h.gateOpen

theorem takenOff_eq_nil {m m' : Machine π}
    (h : m'.tables.nextTicket = m.tables.nextTicket) : takenOff m m' = [] := by
  simp [takenOff, h]

/-- Neither does what changes the tables alone. -/
theorem Good.withMachine {s : Schedule π} {m : Machine π} (h : s.Good b streams)
    (hm : m.Sound b streams) (htasks : m.tasks = s.machine.tasks)
    (hticket : m.tables.nextTicket = s.machine.tables.nextTicket) :
    ({ s with machine := m } : Schedule π).Good b streams := by
  have hafter := h.after hm (Machine.extends_of_tasks_eq h.formed.machine htasks hticket)
  rwa [Schedule.after, takenOff_eq_nil hticket, List.append_nil] at hafter

end Schedule

namespace Request

variable {b : Backend π} {streams : Set (List UInt8)} {r : Request π} {m : Machine π}

/-- One step of a request, active or not. -/
theorem sound_step (hfree : CollisionFree b.environment streams) (hm : m.Sound b streams)
    (hr : r.Sound b streams m) :
    (r.step b.environment m).2.Sound b streams ∧
      (r.step b.environment m).1.Sound b streams (r.step b.environment m).2 ∧
      m.Extends (r.step b.environment m).2 := by
  by_cases hactive : r.isActive
  · have hmove := moves_of_step b.environment m hactive
    rcases sound_of_moves hfree hm hr hmove with ⟨hm', hr'⟩
    exact ⟨hm', hr', extends_of_moves hm.formed hmove⟩
  · rw [step_of_not_active hactive]
    exact ⟨hm, hr, .refl hm.formed⟩

theorem sound_advance (hfree : CollisionFree b.environment streams) (hm : m.Sound b streams)
    (hr : r.Sound b streams m) :
    (r.advance b.environment m).2.Sound b streams ∧
      (r.advance b.environment m).1.Sound b streams (r.advance b.environment m).2 ∧
      m.Extends (r.advance b.environment m).2 := by
  rcases sound_step hfree hm hr with ⟨hm₁, hr₁, hext₁⟩
  rcases sound_step hfree hm₁ hr₁ with ⟨hm₂, hr₂, hext₂⟩
  rcases sound_step hfree hm₂ hr₂ with ⟨hm₃, hr₃, hext₃⟩
  exact ⟨hm₃, hr₃, hext₁.trans (hext₂.trans hext₃)⟩

/-- How many steps a request can still make on its own. -/
def stepsLeft (r : Request π) : Nat :=
  match r.stage with
  | .fresh => 3
  | .missed _ => 2
  | .found _ | .joining _ => 1
  | .waiting _ _ | .settled _ => 0

theorem stepsLeft_step (environment : String) (r : Request π) (m : Machine π) :
    (r.step environment m).1.stepsLeft ≤ r.stepsLeft - 1 := by
  by_cases hactive : r.isActive
  · have hmove := moves_of_step environment m hactive
    generalize r.step environment m = next at hmove
    cases hmove <;> simp [stepsLeft, takeOff, *]
  · rw [step_of_not_active hactive]
    unfold stepsLeft
    cases hstage : r.stage <;> simp [isActive, hstage] at hactive ⊢

theorem not_active_advance (environment : String) (r : Request π) (m : Machine π) :
    ¬ (r.advance environment m).1.isActive := by
  have hle : r.stepsLeft ≤ 3 := by
    unfold stepsLeft
    cases r.stage <;> simp
  have h₁ := stepsLeft_step environment r m
  have h₂ := stepsLeft_step environment (r.step environment m).1 (r.step environment m).2
  have h₃ := stepsLeft_step environment
    ((r.step environment m).1.step environment (r.step environment m).2).1
    ((r.step environment m).1.step environment (r.step environment m).2).2
  have hzero : (r.advance environment m).1.stepsLeft = 0 := by
    simp only [advance]
    omega
  intro hactive
  unfold stepsLeft at hzero
  cases hstage : (r.advance environment m).1.stage <;>
    simp [isActive, hstage] at hactive hzero

theorem context_step (environment : String) (r : Request π) (m : Machine π) :
    (r.step environment m).1.context = r.context ∧
      (r.step environment m).1.project = r.project := by
  by_cases hactive : r.isActive
  · exact Moves.context_eq (moves_of_step environment m hactive)
  · rw [step_of_not_active hactive]
    exact ⟨rfl, rfl⟩

theorem context_advance (environment : String) (r : Request π) (m : Machine π) :
    (r.advance environment m).1.context = r.context ∧
      (r.advance environment m).1.project = r.project := by
  simp only [advance, context_step, and_self]

end Request
end Cache
end Ripple
