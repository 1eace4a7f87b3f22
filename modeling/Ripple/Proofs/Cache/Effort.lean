import Ripple.Cache.Schedule
import Ripple.Proofs.Cache.Uncached
import Ripple.Proofs.Cache.Tasks
import Ripple.Proofs.Graph.Order

/-!
# The work that is left

Compiling a project from nothing takes a number of steps that follows from its
effective dependencies. What is left to do for a request or a task is bounded by
it at every stage, and every step leaves less, also when it sets a new task
going: the task's work had been reckoned as the request's.
-/

namespace Ripple

namespace Number

theorem total_map_le {α : Type} (xs : List α) {f g : α → Nat} (h : ∀ x ∈ xs, f x ≤ g x) :
    total (xs.map f) ≤ total (xs.map g) := by
  induction xs with
  | nil => simp
  | cons x xs ih =>
      rw [List.forall_mem_cons] at h
      have hrest := ih h.right
      have hx := h.left
      simp only [List.map_cons, total_cons]
      omega

theorem total_map_lt {α : Type} {xs : List α} {f g : α → Nat} (h : ∀ x ∈ xs, f x ≤ g x)
    {x : α} (hx : x ∈ xs) (hlt : f x < g x) : total (xs.map f) < total (xs.map g) := by
  rcases List.append_of_mem hx with ⟨before, after, rfl⟩
  rw [List.forall_mem_append, List.forall_mem_cons] at h
  have hbefore := total_map_le _ h.left
  have hafter := total_map_le _ h.right.right
  simp only [List.map_append, List.map_cons, total_append, total_cons]
  omega

end Number

namespace Table

variable {κ ν : Type} [DecidableEq κ]

theorem values_insert_of_get?_none {t : Table κ ν} {k : κ} (h : t.get? k = none) (v : ν) :
    (t.insert k v).values = t.values ++ [v] := by
  rw [values, rows_insert_of_get?_none h, List.map_append]
  rfl

theorem map_of_not_mem_keys {rows : List (κ × ν)} {k : κ} (h : k ∉ rows.map Prod.fst)
    (f : κ × ν → κ × ν) : rows.map (fun row => if row.1 = k then f row else row) = rows := by
  conv_rhs => rw [← List.map_id rows]
  apply List.map_congr_left
  intro row hrow
  have hne : row.1 ≠ k := by
    rintro rfl
    exact h (List.mem_map_of_mem hrow)
  rw [if_neg hne, id]

theorem insertRow_append_of_not_mem {before : List (κ × ν)} {k : κ}
    (h : k ∉ before.map Prod.fst) (v v' : ν) (after : List (κ × ν)) :
    insertRow k v' (before ++ (k, v) :: after) = before ++ (k, v') :: after := by
  induction before with
  | nil => simp [insertRow]
  | cons row before ih =>
      rw [List.map_cons, List.mem_cons, not_or] at h
      rw [List.cons_append, insertRow, if_neg (Ne.symm h.left), ih h.right, List.cons_append]

/-- The row of a key, which is all that a new value for the key replaces. -/
theorem rows_split {t : Table κ ν} (hnodup : t.keys.Nodup) {k : κ} {v : ν}
    (h : t.get? k = some v) :
    ∃ before after, t.rows = before ++ (k, v) :: after ∧
      (∀ f, (t.modify k f).rows = before ++ (k, f v) :: after) ∧
      ∀ v', (t.insert k v').rows = before ++ (k, v') :: after := by
  rcases List.append_of_mem (mem_rows_of_get? h) with ⟨before, after, hrows⟩
  rw [keys, hrows, List.map_append, List.map_cons, List.nodup_append, List.nodup_cons] at hnodup
  rcases hnodup with ⟨_, ⟨hafter, _⟩, hdisjoint⟩
  have hbefore : k ∉ before.map Prod.fst :=
    fun hmem => hdisjoint k hmem k List.mem_cons_self rfl
  refine ⟨before, after, hrows, fun f => ?_, fun v' => ?_⟩
  · rw [modify, hrows, List.map_append, List.map_cons, if_pos rfl,
      map_of_not_mem_keys hbefore fun row => (row.1, f row.2),
      map_of_not_mem_keys hafter fun row => (row.1, f row.2)]
  · rw [insert, hrows, insertRow_append_of_not_mem hbefore]

/-- How a total over the values changes with one of them. -/
theorem total_modify {t : Table κ ν} (hnodup : t.keys.Nodup) {k : κ} {v : ν}
    (h : t.get? k = some v) (f : ν → ν) (g : ν → Nat) :
    Number.total ((t.modify k f).values.map g) + g v =
      Number.total (t.values.map g) + g (f v) := by
  rcases rows_split hnodup h with ⟨before, after, hrows, hmodify, _⟩
  simp only [values, hrows, hmodify, List.map_append, List.map_cons, Number.total_append,
    Number.total_cons]
  omega

theorem total_insert {t : Table κ ν} (hnodup : t.keys.Nodup) {k : κ} {v : ν}
    (h : t.get? k = some v) (v' : ν) (g : ν → Nat) :
    Number.total ((t.insert k v').values.map g) + g v =
      Number.total (t.values.map g) + g v' := by
  rcases rows_split hnodup h with ⟨before, after, hrows, _, hinsert⟩
  simp only [values, hrows, hinsert, List.map_append, List.map_cons, Number.total_append,
    Number.total_cons]
  omega

end Table

namespace Context

/-!
# The cost of a project
-/

/-- The steps that compiling a project from nothing takes, at most. -/
def cost (ctx : Context) (id : ProjectId) : Nat :=
  ctx.graph.fold (fun _ below => 16 + Number.total (below.map fun row => row.2 + 8)) id

theorem cost_eq (ctx : Context) (id : ProjectId) :
    ctx.cost id =
      16 + Number.total ((ctx.graph.effectiveDependencies id).map fun c => ctx.cost c + 8) := by
  rw [cost, Graph.fold_eq, List.map_map]
  rfl

theorem effectiveDependencies_of_not_mem {g : Graph} {id : ProjectId} (h : id ∉ g.ids) :
    g.effectiveDependencies id = [] := by
  apply List.eq_nil_iff_forall_not_mem.mpr
  intro c hc
  exact h (Graph.mem_ids_iff_contains.mpr
    (Graph.contains_of_mem_dependencies (Graph.mem_dependencies_of_effective hc)))

/-- The table holds the costs of the projects that are done. -/
def KnowsCosts (ctx : Context) (known : Table ProjectId Nat) (done : List ProjectId) : Prop :=
  ∀ id, known.get? id = if id ∈ done then some (ctx.cost id) else none

/-- The body of the loop over the topological order. -/
def noteEffort (ctx : Context) (known : Table ProjectId Nat) (id : ProjectId) :
    Table ProjectId Nat :=
  let below := (ctx.graph.effectiveDependencies id).map fun other =>
    (known.get? other).getD 0 + 8
  known.insert id (16 + Number.total below)

theorem KnowsCosts.insert {ctx : Context} {known : Table ProjectId Nat}
    {done : List ProjectId} {id : ProjectId} (h : ctx.KnowsCosts known done)
    (hbelow : ∀ c ∈ ctx.graph.effectiveDependencies id, c ∈ done) :
    ctx.KnowsCosts (ctx.noteEffort known id) (done ++ [id]) := by
  have hcost : 16 + Number.total ((ctx.graph.effectiveDependencies id).map fun other =>
      (known.get? other).getD 0 + 8) = ctx.cost id := by
    rw [cost_eq]
    congr 2
    apply List.map_congr_left
    intro c hc
    rw [h c, if_pos (hbelow c hc), Option.getD_some]
  intro id'
  rw [noteEffort, hcost, Table.get?_insert]
  by_cases hid : id' = id
  · simp [hid]
  · simp [hid, h id']

theorem knowsCosts_foldl {ctx : Context} {before rest : List ProjectId}
    {known : Table ProjectId Nat} (h : ctx.KnowsCosts known before)
    (horder : ctx.graph.topologicalOrder = before ++ rest) :
    ctx.KnowsCosts (rest.foldl ctx.noteEffort known) ctx.graph.topologicalOrder := by
  induction rest generalizing before known with
  | nil =>
      rwa [horder, List.append_nil]
  | cons id rest ih =>
      apply ih (h.insert ?_) (by rw [horder, List.append_assoc]; rfl)
      intro c hc
      have hpairwise := Graph.pairwise_topologicalOrder ctx.graph
      rw [horder] at hpairwise
      apply Graph.mem_before_of_pairwise hpairwise hc
      rw [← horder]
      exact Graph.mem_topologicalOrder.mpr (Graph.mem_ids_of_effective hc)

theorem effort_eq_cost (ctx : Context) (id : ProjectId) : ctx.effort id = ctx.cost id := by
  have hempty : ctx.KnowsCosts .empty [] := by
    intro id'
    simp
  have hknown : ctx.efforts.get? id = _ :=
    knowsCosts_foldl hempty (List.nil_append _).symm id
  rw [effort, hknown]
  by_cases hid : id ∈ ctx.graph.ids
  · rw [if_pos (Graph.mem_topologicalOrder.mpr hid), Option.getD_some]
  · rw [if_neg (mt Graph.mem_topologicalOrder.mp hid), Option.getD_none, cost_eq,
      effectiveDependencies_of_not_mem hid, List.map_nil, Number.total_nil]

end Context

namespace Cache

variable {π : Type}

/-!
# The work of requests and tasks

For all outcomes that are announced, a request that waits for one has nothing
left to do.
-/

def Request.work (announced : Nat → Bool) (r : Request π) : Nat :=
  match r.stage with
  | .fresh => r.context.cost r.project + 5
  | .missed _ => r.context.cost r.project + 4
  | .joining _ => r.context.cost r.project + 3
  | .found _ => 1
  | .waiting _ ticket => if announced ticket then 0 else 1
  | .settled _ => 0

def TaskStage.work (announced : Nat → Bool) (ctx : Context) (id : ProjectId) :
    TaskStage π → Nat
  | .fresh =>
      10 + Number.total ((ctx.graph.effectiveDependencies id).map fun c => ctx.cost c + 6)
  | .gathering asked left =>
      9 + Number.total (asked.map (Request.work announced)) +
        Number.total (left.map fun c => ctx.cost c + 6)
  | .gathered _ => 8
  | .counted _ => 7
  | .compiling _ => 6
  | .landing _ => 5
  | .storing _ => 4
  | .clearing _ => 3
  | .announcing _ => 2
  | .announced _ => 1
  | .ended _ => 0

def Task.work (announced : Nat → Bool) (t : Task π) : Nat :=
  t.stage.work announced t.context t.project

namespace Machine

def isAnnounced (m : Machine π) (ticket : Nat) : Bool :=
  (m.outcome? ticket).isSome

def workAs (m : Machine π) (announced : Nat → Bool) : Nat :=
  Number.total (m.tasks.values.map (Task.work announced))

def work (m : Machine π) : Nat :=
  m.workAs m.isAnnounced

theorem workAs_setStage {m : Machine π} (h : m.Formed) {ticket : Nat} {t : Task π}
    (ht : m.tasks.get? ticket = some t) (s : TaskStage π) (announced : Nat → Bool) :
    (m.setStage ticket s).workAs announced + t.work announced =
      m.workAs announced + s.work announced t.context t.project :=
  Table.total_modify h.nodup ht _ _

theorem workAs_of_tasks_eq {m m' : Machine π} (h : m'.tasks = m.tasks)
    (announced : Nat → Bool) : m'.workAs announced = m.workAs announced := by
  rw [workAs, workAs, h]

theorem outcome?_of_tasks_eq {m m' : Machine π} (h : m'.tasks = m.tasks) :
    m'.outcome? = m.outcome? := by
  funext k
  rw [outcome?, outcome?, h]

theorem outcome?_setStage {m : Machine π} {ticket : Nat} {t : Task π}
    (ht : m.tasks.get? ticket = some t) (s : TaskStage π) (k : Nat) :
    (m.setStage ticket s).outcome? k = if k = ticket then s.outcome? else m.outcome? k := by
  rw [outcome?, get?_setStage]
  by_cases hk : k = ticket
  · rw [if_pos hk, if_pos hk, hk, ht]
    rfl
  · rw [if_neg hk, if_neg hk]
    rfl

theorem outcome?_setStage_same {m : Machine π} {ticket : Nat} {t : Task π}
    (ht : m.tasks.get? ticket = some t) {s : TaskStage π}
    (hs : s.outcome? = t.stage.outcome?) : (m.setStage ticket s).outcome? = m.outcome? := by
  funext k
  rw [outcome?_setStage ht]
  by_cases hk : k = ticket
  · rw [if_pos hk, hs, hk, outcome?, ht]
    rfl
  · rw [if_neg hk]

/-- There may be new tasks, and nothing has become known of the others. -/
structure Extends (m m' : Machine π) : Prop where
  formed : m'.Formed
  adds : m.Adds m'
  outcome : m'.outcome? = m.outcome?

theorem Extends.refl {m : Machine π} (h : m.Formed) : m.Extends m :=
  ⟨h, fun _ _ ht => ht, rfl⟩

theorem Extends.trans {m m' m'' : Machine π} (h : m.Extends m') (h' : m'.Extends m'') :
    m.Extends m'' :=
  ⟨h'.formed, fun _ _ ht => h'.adds (h.adds ht), h'.outcome.trans h.outcome⟩

theorem extends_of_tasks_eq {m m' : Machine π} (h : m.Formed) (htasks : m'.tasks = m.tasks)
    (hticket : m'.tables.nextTicket = m.tables.nextTicket) : m.Extends m' :=
  ⟨h.of_tasks_eq htasks hticket, adds_of_tasks_eq htasks, outcome?_of_tasks_eq htasks⟩

theorem isAnnounced_of_outcome?_eq {m m' : Machine π} (h : m'.outcome? = m.outcome?) :
    m'.isAnnounced = m.isAnnounced := by
  funext k
  rw [isAnnounced, isAnnounced, h]

end Machine

theorem Task.work_fresh_lt (announced : Nat → Bool) (ctx : Context) (id : ProjectId) :
    (TaskStage.fresh : TaskStage π).work announced ctx id + 6 ≤ ctx.cost id := by
  have hle := Number.total_map_le (f := fun c => ctx.cost c + 6) (g := fun c => ctx.cost c + 8)
    (ctx.graph.effectiveDependencies id) (by intro c _; omega)
  rw [Context.cost_eq]
  simp only [TaskStage.work]
  omega

/-!
# Steps of a request
-/

namespace Request

variable {r r' : Request π} {m m' : Machine π} {environment : String}

theorem workAs_takeOff (h : m.Formed) (f : Fingerprint) (announced : Nat → Bool) :
    (r.takeOff f m).2.workAs announced =
      m.workAs announced +
        (TaskStage.fresh : TaskStage π).work announced r.context r.project := by
  simp only [Machine.workAs, takeOff, Table.values_insert_of_get?_none h.get?_nextTicket,
    List.map_append, Number.total_append, List.map_singleton, Number.total_cons,
    Number.total_nil, Task.work]
  omega

theorem outcome?_takeOff (h : m.Formed) (f : Fingerprint) :
    (r.takeOff f m).2.outcome? = m.outcome? := by
  funext k
  simp only [Machine.outcome?, takeOff, Table.get?_insert]
  by_cases hk : k = m.tables.nextTicket
  · rw [if_pos hk, hk, h.get?_nextTicket]
    rfl
  · rw [if_neg hk]

theorem outcome?_of_moves (h : m.Formed) (hmove : r.Moves environment m (r', m')) :
    m'.outcome? = m.outcome? := by
  generalize hnext : (r', m') = next at hmove
  cases hmove with
  | tookOff =>
      cases hnext
      exact outcome?_takeOff h _
  | _ =>
      cases hnext
      exact Machine.outcome?_of_tasks_eq rfl

theorem extends_of_moves (h : m.Formed) (hmove : r.Moves environment m (r', m')) :
    m.Extends m' :=
  ⟨(formed_of_moves h hmove).left, (formed_of_moves h hmove).right, outcome?_of_moves h hmove⟩

theorem work_of_moves (h : m.Formed) (hmove : r.Moves environment m (r', m'))
    (announced others : Nat → Bool) :
    r'.work announced + m'.workAs others + m'.tables.nextTicket + 1 ≤
      r.work announced + m.workAs others + m.tables.nextTicket := by
  -- All moves but taking off leave the tasks as they are.
  have hsame {r₁ : Request π} {m₁ : Machine π} (htasks : m₁.tasks = m.tasks)
      (hticket : m₁.tables.nextTicket = m.tables.nextTicket)
      (hless : r₁.work announced + 1 ≤ r.work announced) :
      r₁.work announced + m₁.workAs others + m₁.tables.nextTicket + 1 ≤
        r.work announced + m.workAs others + m.tables.nextTicket := by
    rw [Machine.workAs_of_tasks_eq htasks, hticket]
    omega
  generalize hnext : (r', m') = next at hmove
  cases hmove with
  | found hstage hprint hlook =>
      cases hnext
      exact hsame rfl (Tables.within_lookUp hlook).nextTicket (by simp [work, hstage])
  | joined hstage hflight =>
      cases hnext
      refine hsame rfl rfl ?_
      simp only [work, hstage]
      split <;> omega
  | stored hstage hlook =>
      cases hnext
      exact hsame rfl (Tables.within_lookUp hlook).nextTicket (by simp [work, hstage])
  | @tookOff f hstage =>
      have hr : r' = (r.takeOff f m).1 := congrArg Prod.fst hnext
      have hm : m' = (r.takeOff f m).2 := congrArg Prod.snd hnext
      have hwork := workAs_takeOff (r := r) h f others
      have hfresh := Task.work_fresh_lt (π := π) others r.context r.project
      have hticket : (r.takeOff f m).2.tables.nextTicket = m.tables.nextTicket + 1 := rfl
      have hwait : (r.takeOff f m).1.work announced ≤ 1 := by
        simp only [work, takeOff]
        split <;> omega
      have hjoin : r.work announced = r.context.cost r.project + 3 := by
        simp only [work, hstage]
      rw [hr, hm]
      omega
  | _ =>
      cases hnext
      exact hsame rfl rfl (by simp [work, *])

/-- A request that goes on leaves less work, for itself and the tasks together. -/
theorem machineWork_of_moves (h : m.Formed) (hmove : r.Moves environment m (r', m')) :
    r'.work (fun _ => true) + m'.work + m'.tables.nextTicket + 1 ≤
      r.work (fun _ => true) + m.work + m.tables.nextTicket := by
  rw [Machine.work, Machine.isAnnounced_of_outcome?_eq (outcome?_of_moves h hmove)]
  exact work_of_moves h hmove (fun _ => true) m.isAnnounced

end Request

/-!
# Steps of a task
-/

namespace Task

variable {m m' : Machine π} {b : Backend π} {gateOpen : Bool} {ticket : Nat} {t : Task π}

theorem work_of_moves (h : m.Formed) (ht : m.tasks.get? ticket = some t)
    (hmove : t.Moves b gateOpen ticket m m') (announced : Nat → Bool) :
    m'.workAs announced + m'.tables.nextTicket + 1 ≤
      m.workAs announced + m.tables.nextTicket := by
  -- Every move ends in a stage that leaves less to do.
  have hset {m₁ : Machine π} {s : TaskStage π} (htasks : m₁.tasks = m.tasks)
      (hticket : m₁.tables.nextTicket = m.tables.nextTicket)
      (hless : s.work announced t.context t.project + 1 ≤
        t.stage.work announced t.context t.project) :
      (m₁.setStage ticket s).workAs announced + (m₁.setStage ticket s).tables.nextTicket + 1 ≤
        m.workAs announced + m.tables.nextTicket := by
    have hwork := Machine.workAs_setStage (h.of_tasks_eq htasks hticket)
      (htasks ▸ ht) s announced
    have hsame := Machine.workAs_of_tasks_eq htasks announced
    have hnext : (m₁.setStage ticket s).tables.nextTicket = m.tables.nextTicket := hticket
    simp only [work] at hwork
    omega
  cases hmove with
  | unknown hstage hproject =>
      refine hset rfl rfl ?_
      rcases hstage with hstage | ⟨references, hstage⟩ <;> simp only [hstage, TaskStage.work] <;>
        omega
  | entered hstage =>
      refine hset rfl rfl ?_
      simp only [hstage, TaskStage.work, List.map_nil, Number.total_nil]
      omega
  | @stepped asked r r' m₁ left hstage hactive hmove =>
      have hrequest := Request.work_of_moves h hmove announced announced
      rcases Request.formed_of_moves h hmove with ⟨hformed, hadds⟩
      have hwork := Machine.workAs_setStage hformed (hadds ht)
        (.gathering (asked ++ [r']) left) announced
      have hnext : (m₁.setStage ticket (.gathering (asked ++ [r']) left)).tables.nextTicket =
        m₁.tables.nextTicket := rfl
      simp only [work, hstage, TaskStage.work, List.map_append, Number.total_append,
        List.map_singleton, Number.total_cons, Number.total_nil] at hwork
      omega
  | failed hstage hgathered =>
      refine hset rfl rfl ?_
      simp only [hstage, TaskStage.work]
      omega
  | asked hstage hlast =>
      refine hset rfl rfl ?_
      simp only [hstage, TaskStage.work, List.map_append, Number.total_append, List.map_cons,
        List.map_nil, Number.total_cons, Number.total_nil, Request.work, Request.of]
      omega
  | gathered hstage hgathered =>
      refine hset rfl rfl ?_
      simp only [hstage, TaskStage.work]
      omega
  | @answered u hstage hopen =>
      refine hset rfl ?_ ?_
      · cases b.compile u <;> rfl
      · simp [hstage, TaskStage.work]
  | swept hstage =>
      exact hset rfl (Tables.within_sweepCapacity m.tables).nextTicket
        (by simp [hstage, TaskStage.work])
  | _ => exact hset rfl rfl (by simp [*, TaskStage.work])

/-- Only a task that announces its outcome changes what is known of outcomes. -/
theorem outcome?_of_moves (h : m.Formed) (ht : m.tasks.get? ticket = some t)
    (hmove : t.Moves b gateOpen ticket m m') :
    m'.outcome? = m.outcome? ∨
      ∃ o, t.stage = .announcing o ∧ m' = m.setStage ticket (.announced o) := by
  have hset {m₁ : Machine π} {s : TaskStage π} (htasks : m₁.tasks = m.tasks)
      (hs : s.outcome? = t.stage.outcome?) : (m₁.setStage ticket s).outcome? = m.outcome? :=
    (Machine.outcome?_setStage_same (htasks ▸ ht) hs).trans (Machine.outcome?_of_tasks_eq htasks)
  cases hmove with
  | announced hstage =>
      exact Or.inr ⟨_, hstage, rfl⟩
  | unknown hstage hproject =>
      left
      rcases hstage with hstage | ⟨references, hstage⟩ <;>
        exact hset rfl (by simp [hstage, TaskStage.outcome?])
  | stepped hstage hactive hmove =>
      left
      rcases Request.formed_of_moves h hmove with ⟨_, hadds⟩
      rw [← Request.outcome?_of_moves h hmove]
      exact Machine.outcome?_setStage_same (hadds ht) (by simp [hstage, TaskStage.outcome?])
  | _ =>
      exact Or.inl (hset rfl (by simp [*, TaskStage.outcome?]))

end Task

/-!
# Announcements
-/

/-- One more outcome is announced. -/
def alsoAnnounced (announced : Nat → Bool) (ticket k : Nat) : Bool :=
  decide (k = ticket) || announced k

theorem TaskStage.waitsFor_iff {s : TaskStage π} {ticket : Nat} :
    s.waitsFor ticket ↔ ∃ asked left, s = .gathering asked left ∧
      ∃ r ∈ asked, ∃ f, r.stage = .waiting f ticket := by
  cases s with
  | gathering asked left =>
      simp only [waitsFor, List.any_eq_true]
      constructor
      · rintro ⟨r, hr, hwaits⟩
        refine ⟨asked, left, rfl, r, hr, ?_⟩
        cases hstage : r.stage with
        | waiting f k =>
            rw [hstage] at hwaits
            exact ⟨f, by rw [of_decide_eq_true hwaits]⟩
        | _ =>
            rw [hstage] at hwaits
            cases hwaits
      · rintro ⟨asked', left', heq, r, hr, f, hstage⟩
        cases heq
        exact ⟨r, hr, by simp [hstage]⟩
  | _ => simp [waitsFor]

theorem Request.work_announce (announced : Nat → Bool) (ticket : Nat) (r : Request π) :
    r.work (alsoAnnounced announced ticket) ≤ r.work announced := by
  unfold work alsoAnnounced
  cases r.stage with
  | waiting f k => by_cases hk : k = ticket <;> simp [hk]
  | _ => exact Nat.le_refl _

theorem Request.work_announce_lt {announced : Nat → Bool} {ticket : Nat} {r : Request π}
    {f : Fingerprint} (hnew : announced ticket = false) (hstage : r.stage = .waiting f ticket) :
    r.work (alsoAnnounced announced ticket) < r.work announced := by
  simp [work, alsoAnnounced, hstage, hnew]

/-- Announcing an outcome takes a step off every task that waits for it. -/
theorem Task.work_announce {announced : Nat → Bool} {ticket : Nat}
    (hnew : announced ticket = false) (t : Task π) :
    t.work (alsoAnnounced announced ticket) + (if t.stage.waitsFor ticket then 1 else 0) ≤
      t.work announced := by
  have hle (asked : List (Request π)) :=
    Number.total_map_le asked fun r _ => r.work_announce announced ticket
  by_cases hwaits : t.stage.waitsFor ticket
  · rcases TaskStage.waitsFor_iff.mp hwaits with ⟨asked, left, hstage, r, hr, f, hrequest⟩
    have hlt := Number.total_map_lt (fun r _ => r.work_announce announced ticket) hr
      (Request.work_announce_lt hnew hrequest)
    rw [if_pos hwaits]
    simp only [work, hstage, TaskStage.work]
    omega
  · rw [if_neg hwaits]
    cases hstage : t.stage with
    | gathering asked left =>
        have hasked := hle asked
        simp only [work, hstage, TaskStage.work]
        omega
    | _ => simp [work, hstage, TaskStage.work]

/-- Announcing an outcome takes off as many steps as there are tasks to wake. -/
theorem Machine.workAs_announce {m : Machine π} {announced : Nat → Bool} {ticket : Nat}
    (hnew : announced ticket = false) :
    m.workAs (alsoAnnounced announced ticket) +
      (m.tasks.filter fun _ t => t.stage.waitsFor ticket).keys.length ≤ m.workAs announced := by
  simp only [workAs, Table.values, Table.keys, Table.filter, List.length_map, List.map_map]
  induction m.tasks.rows with
  | nil => simp
  | cons row rows ih =>
      have hrow := Task.work_announce hnew row.2
      simp only [List.map_cons, Number.total_cons, List.filter_cons, Function.comp_apply]
      split at hrow
      · rename_i hwaits
        rw [if_pos hwaits, List.length_cons]
        omega
      · rename_i hwaits
        rw [if_neg hwaits]
        omega

end Cache
end Ripple
