import Ripple.Proofs.Cache.Capacity

/-!
# What becomes of compiles

A request that is not served from the entries is counted as a miss, and it sets at most one
task going. A task counts at most one compile, and that compile fails, is superseded, or
stores an entry in a slot that had one or had none. So each step balances what it
counts against what it does to tasks and entries.
-/

namespace Ripple
namespace Cache

variable {π : Type}

/-!
# Stages
-/

namespace Request

/-- One if the request has been counted as a miss and may still take off. -/
def joining (r : Request π) : Nat :=
  match r.stage with
  | .joining _ => 1
  | _ => 0

end Request

/-- What becomes of a compile that leaves no new entry. -/
inductive Waste where
  | failed
  | superseded
  | replacing
  deriving DecidableEq

namespace TaskStage

/-- One if no compile of the task has been counted. -/
def uncounted : TaskStage π → Nat
  | .fresh | .gathering _ _ | .gathered _ => 1
  | _ => 0

/-- One if a compile of the task has been counted and it is open what becomes of it. -/
def undecided : TaskStage π → Nat
  | .counted _ | .compiling _ | .landing (.ok _) | .storing _ => 1
  | _ => 0

/-- The requests of the task that may still take off. -/
def joining : TaskStage π → Nat
  | .gathering asked _ => Number.total (asked.map Request.joining)
  | _ => 0

/-- How a compile is wasted that goes from one stage to another, its slot being taken or
not. -/
def waste? (taken : Bool) : TaskStage π → TaskStage π → Option Waste
  | .counted _, .landing (.error _) | .compiling _, .landing (.error _) => some .failed
  | .landing (.ok _), .announcing _ => some .superseded
  | .storing _, .clearing _ => if taken then some .replacing else none
  | _, _ => none

theorem waste?_self (taken : Bool) (s : TaskStage π) : s.waste? taken s = none := by
  cases s with
  | landing o => cases o <;> rfl
  | _ => rfl

end TaskStage

namespace Machine

/-!
# Tallies
-/

/-- The total of a number that goes with the stages of tasks. -/
def tally (f : TaskStage π → Nat) (m : Machine π) : Nat :=
  Number.total (m.tasks.values.map fun t => f t.stage)

variable {m m' m₁ : Machine π} {k : Nat} {t : Task π}

theorem tally_of_tasks_eq (h : m'.tasks = m.tasks) (f : TaskStage π → Nat) :
    m'.tally f = m.tally f := by
  rw [tally, tally, h]

theorem tally_setStage (h : m.Formed) (ht : m.tasks.get? k = some t) (s : TaskStage π)
    (f : TaskStage π → Nat) : (m.setStage k s).tally f + f t.stage = m.tally f + f s :=
  Table.total_modify h.nodup ht _ _

theorem tally_takeOff (h : m.Formed) (r : Request π) (p : Fingerprint) (f : TaskStage π → Nat) :
    (r.takeOff p m).2.tally f = m.tally f + f .fresh := by
  simp only [tally, Request.takeOff, Table.values_insert_of_get?_none h.get?_nextTicket,
    List.map_append, Number.total_append, List.map_singleton, Number.total_cons,
    Number.total_nil, Nat.add_zero]

/-!
# Wasted compiles
-/

/-- How a compile of the task is wasted between two states, if it is. -/
def waste? (m m' : Machine π) (k : Nat) : Option (Nat × Waste) := do
  let t ← m.tasks.get? k
  let t' ← m'.tasks.get? k
  let w ← t.stage.waste? (m.tables.entries.contains t.slot) t'.stage
  pure (k, w)

/-- The compiles that are wasted between two states, with the tickets of their tasks. -/
def wastes (m m' : Machine π) : List (Nat × Waste) :=
  m.tasks.keys.filterMap (m.waste? m')

theorem waste?_of_same (ht : m.tasks.get? k = some t) (ht' : m'.tasks.get? k = some t) :
    m.waste? m' k = none := by
  simp only [waste?, ht, ht', Option.bind_eq_bind, Option.bind_some, TaskStage.waste?_self,
    Option.bind_none]

theorem wastes_of_adds (h : m.Adds m') : m.wastes m' = [] := by
  refine List.filterMap_eq_nil_iff.mpr fun k hk => ?_
  rcases Table.mem_keys_iff.mp hk with ⟨t, ht⟩
  exact waste?_of_same ht (h ht)

theorem length_filterMap_of_single {α β : Type} {f : α → Option β} {xs : List α}
    (hnodup : xs.Nodup) {x : α} (hx : x ∈ xs) (h : ∀ y ∈ xs, y ≠ x → f y = none) :
    (xs.filterMap f).length = (f x).toList.length := by
  rcases List.append_of_mem hx with ⟨before, after, rfl⟩
  rcases List.nodup_append.mp hnodup with ⟨_, hcons, hdisjoint⟩
  have hbefore : before.filterMap f = [] := List.filterMap_eq_nil_iff.mpr fun y hy =>
    h y (List.mem_append_left _ hy) (hdisjoint y hy x List.mem_cons_self)
  have hafter : after.filterMap f = [] := List.filterMap_eq_nil_iff.mpr fun y hy =>
    h y (List.mem_append_right _ (List.mem_cons_of_mem _ hy))
      fun heq => (List.nodup_cons.mp hcons).left (heq ▸ hy)
  rw [List.filterMap_append, hbefore, List.nil_append, List.filterMap_cons]
  cases f x with
  | none => simp [hafter]
  | some y => simp [hafter]

/-- A task that goes on wastes nothing but what it has compiled itself. -/
theorem length_wastes_setStage (h : m.Formed) (hadds : m.Adds m₁)
    (ht : m.tasks.get? k = some t) (s : TaskStage π) :
    (m.wastes (m₁.setStage k s)).length =
      (t.stage.waste? (m.tables.entries.contains t.slot) s).toList.length := by
  have hothers : ∀ k' ∈ m.tasks.keys, k' ≠ k → m.waste? (m₁.setStage k s) k' = none := by
    intro k' hk' hne
    rcases Table.mem_keys_iff.mp hk' with ⟨t', ht'⟩
    refine waste?_of_same ht' ?_
    rw [get?_setStage, if_neg hne]
    exact hadds ht'
  have hk : k ∈ m.tasks.keys := Table.mem_keys_iff.mpr ⟨t, ht⟩
  rw [wastes, length_filterMap_of_single h.nodup hk hothers]
  simp only [waste?, ht, get?_setStage_self (hadds ht) s, Option.bind_eq_bind, Option.bind_some]
  cases t.stage.waste? (m.tables.entries.contains t.slot) s <;> rfl

/-!
# Balances
-/

/-- Nothing is stored, evicted or compiled. -/
structure Quiet (m m' : Machine π) : Prop where
  size : m'.tables.entries.size = m.tables.entries.size
  evictions : m'.tables.counters.evictions = m.tables.counters.evictions
  compiles : m'.tables.counters.compiles = m.tables.counters.compiles
  tally : ∀ f : TaskStage π → Nat, f .fresh = 0 → m'.tally f = m.tally f
  adds : m.Adds m'

/-- For each compile that is counted one is undecided, wasted or stored. -/
structure Balances (m m' : Machine π) : Prop where
  evictions : m'.tables.counters.evictions = m.tables.counters.evictions
  compiles : m'.tables.entries.size + m'.tally TaskStage.undecided + (m.wastes m').length +
      m.tables.counters.compiles =
    m.tables.entries.size + m.tally TaskStage.undecided + m'.tables.counters.compiles

/-- No more compiles are counted than tasks take off, and no more tasks take off than misses
are counted. The requests of whoever goes on may still take off before and after. -/
structure Pays (m : Machine π) (before : Nat) (m' : Machine π) (after : Nat) : Prop where
  compiles : m'.tables.counters.compiles + m'.tally TaskStage.uncounted + m.tables.nextTicket ≤
    m.tables.counters.compiles + m.tally TaskStage.uncounted + m'.tables.nextTicket
  tickets : m'.tables.nextTicket + m'.tally TaskStage.joining + after +
      m.tables.counters.misses ≤
    m.tables.nextTicket + m.tally TaskStage.joining + before + m'.tables.counters.misses

theorem quiet_of_tables {m' : Machine π} (htasks : m'.tasks = m.tasks)
    (hentries : m'.tables.entries.size = m.tables.entries.size)
    (hcompiles : m'.tables.counters.compiles = m.tables.counters.compiles)
    (hevictions : m'.tables.counters.evictions = m.tables.counters.evictions) : m.Quiet m' :=
  ⟨hentries, hevictions, hcompiles, fun f _ => tally_of_tasks_eq htasks f,
    adds_of_tasks_eq htasks⟩

theorem Quiet.balances (h : m.Quiet m') : m.Balances m' := by
  refine ⟨h.evictions, ?_⟩
  rw [wastes_of_adds h.adds, h.size, h.compiles, h.tally _ rfl]
  rfl

theorem pays_of_tables {before after : Nat} (htasks : m'.tasks = m.tasks)
    (hticket : m'.tables.nextTicket = m.tables.nextTicket)
    (hcompiles : m'.tables.counters.compiles = m.tables.counters.compiles)
    (hmisses : after + m.tables.counters.misses ≤ before + m'.tables.counters.misses) :
    m.Pays before m' after := by
  constructor
  · rw [tally_of_tasks_eq htasks, hticket, hcompiles]
  · rw [tally_of_tasks_eq htasks, hticket]
    omega

end Machine

/-!
# Requests
-/

theorem Tables.size_lookUp {t t' : Tables π} (hnodup : t.entries.keys.Nodup) {slot : Slot}
    {f : Fingerprint} {a : Held (Artifact π)} (h : t.lookUp slot f = some (a, t')) :
    t'.entries.size = t.entries.size := by
  rcases lookUp_eq_some_iff.mp h with ⟨e, he, _, _, rfl⟩
  have hsize := Table.size_insert hnodup slot { e with lastAccess := max e.lastAccess t.clock }
  rwa [Table.contains, he] at hsize

namespace Request

variable {environment : String} {r r' : Request π} {m m' : Machine π}

theorem quiet_of_moves (hformed : m.Formed) (hnodup : m.tables.entries.keys.Nodup)
    (hmove : r.Moves environment m (r', m')) : m.Quiet m' := by
  generalize hnext : (r', m') = next at hmove
  cases hmove with
  | found hstage hprint hlook =>
      cases hnext
      rcases Tables.lookUp_eq_some_iff.mp hlook with ⟨e, _, _, _, rfl⟩
      exact Machine.quiet_of_tables rfl (Tables.size_lookUp hnodup hlook) rfl rfl
  | stored hstage hlook =>
      cases hnext
      rcases Tables.lookUp_eq_some_iff.mp hlook with ⟨e, _, _, _, rfl⟩
      exact Machine.quiet_of_tables rfl (Tables.size_lookUp hnodup hlook) rfl rfl
  | @tookOff f hstage hlook hother =>
      have hm : m' = (r.takeOff f m).2 := congrArg Prod.snd hnext
      rw [hm]
      exact ⟨rfl, rfl, rfl, fun g hg => by rw [Machine.tally_takeOff hformed, hg, Nat.add_zero],
        adds_takeOff hformed f⟩
  | _ =>
      cases hnext
      exact Machine.quiet_of_tables rfl rfl rfl rfl

/-- A request takes off only after it has been counted as a miss. -/
theorem pays_of_moves (hformed : m.Formed) (hmove : r.Moves environment m (r', m')) :
    m.Pays r.joining m' r'.joining := by
  generalize hnext : (r', m') = next at hmove
  cases hmove with
  | found hstage hprint hlook =>
      cases hnext
      rcases Tables.lookUp_eq_some_iff.mp hlook with ⟨e, _, _, _, rfl⟩
      exact Machine.pays_of_tables rfl rfl rfl (by simp [joining])
  | hit hstage =>
      cases hnext
      exact Machine.pays_of_tables rfl rfl rfl (Nat.add_le_add_right (Nat.zero_le _) _)
  | miss hstage =>
      cases hnext
      refine Machine.pays_of_tables rfl rfl rfl ?_
      simp only [joining, hstage, Machine.updateTables, Tables.countMiss]
      omega
  | stored hstage hlook =>
      cases hnext
      rcases Tables.lookUp_eq_some_iff.mp hlook with ⟨e, _, _, _, rfl⟩
      exact Machine.pays_of_tables rfl rfl rfl (by simp [joining])
  | @tookOff f hstage hlook hother =>
      have hr : r' = (r.takeOff f m).1 := congrArg Prod.fst hnext
      have hm : m' = (r.takeOff f m).2 := congrArg Prod.snd hnext
      have hbefore : r.joining = 1 := by rw [joining, hstage]
      have hafter : r'.joining = 0 := by rw [hr]; rfl
      rw [hbefore, hafter, hm]
      constructor
      · rw [Machine.tally_takeOff hformed]
        simp only [takeOff, TaskStage.uncounted]
        omega
      · rw [Machine.tally_takeOff hformed]
        simp only [takeOff, TaskStage.joining]
        omega
  | _ =>
      cases hnext
      exact Machine.pays_of_tables rfl rfl rfl (by simp [joining])

end Request

/-!
# Tasks
-/

namespace Task

variable {b : Backend π} {gateOpen : Bool} {k : Nat} {t : Task π} {m m' m₁ : Machine π}

theorem isError_of_gathered? {asked : List (Request π)} {o : Outcome π}
    (h : gathered? m asked = some (.inl o)) : ∃ e, o = .error e := by
  induction asked with
  | nil => cases h
  | cons r rest ih =>
      rw [gathered?] at h
      cases hresult : r.result? m with
      | none =>
          rw [hresult] at h
          cases hrest : gathered? m rest with
          | none =>
              rw [hrest] at h
              cases h
          | some x =>
              rw [hrest] at h
              cases x <;> cases h
              exact ih hrest
      | some result =>
          rw [hresult] at h
          cases result with
          | error e =>
              cases h
              exact ⟨e, rfl⟩
          | ok found =>
              cases hrest : gathered? m rest with
              | none =>
                  rw [hrest] at h
                  cases h
              | some x =>
                  rw [hrest] at h
                  cases x <;> cases h
                  exact ih hrest

/-- A task goes on, and perhaps a request of it has done something before. -/
theorem balances_setStage (hformed : m.Formed) (hformed₁ : m₁.Formed) (hadds : m.Adds m₁)
    (ht : m.tasks.get? k = some t) {s : TaskStage π}
    (htally : m₁.tally TaskStage.undecided = m.tally TaskStage.undecided)
    (hevictions : m₁.tables.counters.evictions = m.tables.counters.evictions)
    (hcompiles : m₁.tables.entries.size + s.undecided +
        (t.stage.waste? (m.tables.entries.contains t.slot) s).toList.length +
        m.tables.counters.compiles =
      m.tables.entries.size + t.stage.undecided + m₁.tables.counters.compiles) :
    m.Balances (m₁.setStage k s) := by
  refine ⟨hevictions, ?_⟩
  have hstages := Machine.tally_setStage hformed₁ (hadds ht) s TaskStage.undecided
  rw [Machine.length_wastes_setStage hformed hadds ht]
  simp only [Machine.setStage] at hstages ⊢
  omega

theorem balances_of_moves (hformed : m.Formed) (hnodup : m.tables.entries.keys.Nodup)
    (ht : m.tasks.get? k = some t) (hmove : t.Moves b gateOpen k m m')
    (hstage : ∀ o, t.stage ≠ .announced o) : m.Balances m' := by
  have hset {m₁ : Machine π} {s : TaskStage π} (htasks : m₁.tasks = m.tasks)
      (hticket : m₁.tables.nextTicket = m.tables.nextTicket)
      (hevictions : m₁.tables.counters.evictions = m.tables.counters.evictions)
      (hcompiles : m₁.tables.entries.size + s.undecided +
          (t.stage.waste? (m.tables.entries.contains t.slot) s).toList.length +
          m.tables.counters.compiles =
        m.tables.entries.size + t.stage.undecided + m₁.tables.counters.compiles) :
      m.Balances (m₁.setStage k s) :=
    balances_setStage hformed (hformed.of_tasks_eq htasks hticket)
      (Machine.adds_of_tasks_eq htasks) ht (Machine.tally_of_tasks_eq htasks _) hevictions
      hcompiles
  -- Most moves store nothing and count nothing.
  have hsame {m₁ : Machine π} {s : TaskStage π} (htasks : m₁.tasks = m.tasks)
      (hticket : m₁.tables.nextTicket = m.tables.nextTicket)
      (hentries : m₁.tables.entries = m.tables.entries)
      (hcounters : m₁.tables.counters = m.tables.counters)
      (hstages : s.undecided +
          (t.stage.waste? (m.tables.entries.contains t.slot) s).toList.length =
        t.stage.undecided) : m.Balances (m₁.setStage k s) := by
    refine hset htasks hticket (by rw [hcounters]) ?_
    rw [hentries, hcounters]
    omega
  cases hmove with
  | unknown hstage hproject =>
      rcases hstage with hstage | ⟨references, hstage⟩
      · exact hsame rfl rfl rfl rfl (by rw [hstage]; rfl)
      · exact hsame rfl rfl rfl rfl (by rw [hstage]; rfl)
  | @stepped asked r r' m₁ left hstage hactive hrequest =>
      have hquiet := Request.quiet_of_moves hformed hnodup hrequest
      refine balances_setStage hformed (Request.formed_of_moves hformed hrequest).left
        hquiet.adds ht (hquiet.tally _ rfl) hquiet.evictions ?_
      rw [hquiet.size, hquiet.compiles, hstage]
      rfl
  | failed hstage hgathered =>
      rcases isError_of_gathered? hgathered with ⟨e, rfl⟩
      exact hsame rfl rfl rfl rfl (by rw [hstage]; rfl)
  | counted hstage =>
      refine hset rfl rfl rfl ?_
      simp only [hstage, TaskStage.undecided, TaskStage.waste?, Machine.updateTables,
        Tables.countCompile, Option.toList_none, List.length_nil]
      omega
  | @answered u hstage hopen =>
      cases b.compile u <;> exact hsame rfl rfl rfl rfl (by rw [hstage]; rfl)
  | @diverted o hstage hlost =>
      cases o <;> exact hsame rfl rfl rfl rfl (by rw [hstage]; rfl)
  | @stored a hstage =>
      refine hset rfl rfl rfl ?_
      have hsize := m.tables.size_store hnodup t.slot t.fingerprint a
      change (m.tables.store t.slot t.fingerprint a).entries.size + _ + _ + _ = _
      rw [hsize, hstage]
      cases m.tables.entries.contains t.slot <;>
        simp [TaskStage.undecided, TaskStage.waste?, Machine.updateTables, Tables.store]
  | swept hstage' => exact absurd hstage' (hstage _)
  | entered hstage | asked hstage | gathered hstage | called hstage | landed hstage
  | crashed hstage | cleared hstage | announced hstage =>
      exact hsame rfl rfl rfl rfl (by rw [hstage]; rfl)

/-- A task counts its compile once, and asks for nothing that has been counted before. -/
theorem pays_of_moves (hformed : m.Formed) (ht : m.tasks.get? k = some t)
    (hmove : t.Moves b gateOpen k m m') (hstage : ∀ o, t.stage ≠ .announced o) :
    m.Pays 0 m' 0 := by
  have hset {m₁ : Machine π} {s : TaskStage π} (htasks : m₁.tasks = m.tasks)
      (hticket : m₁.tables.nextTicket = m.tables.nextTicket)
      (hmisses : m₁.tables.counters.misses = m.tables.counters.misses)
      (hcompiles : m₁.tables.counters.compiles + s.uncounted ≤
        m.tables.counters.compiles + t.stage.uncounted)
      (hjoining : s.joining ≤ t.stage.joining) : m.Pays 0 (m₁.setStage k s) 0 := by
    have hformed₁ := hformed.of_tasks_eq htasks hticket
    have huncounted := Machine.tally_setStage hformed₁ (htasks ▸ ht) s TaskStage.uncounted
    have hstages := Machine.tally_setStage hformed₁ (htasks ▸ ht) s TaskStage.joining
    rw [Machine.tally_of_tasks_eq htasks] at huncounted hstages
    constructor
    · simp only [Machine.setStage] at huncounted ⊢
      omega
    · simp only [Machine.setStage] at hstages ⊢
      omega
  -- Later stages have nothing left to count.
  have hlate {m₁ : Machine π} {s : TaskStage π} (htasks : m₁.tasks = m.tasks)
      (hticket : m₁.tables.nextTicket = m.tables.nextTicket)
      (hcounters : m₁.tables.counters = m.tables.counters) (huncounted : s.uncounted = 0)
      (hjoining : s.joining = 0) : m.Pays 0 (m₁.setStage k s) 0 := by
    refine hset htasks hticket (by rw [hcounters]) ?_ (by rw [hjoining]; exact Nat.zero_le _)
    rw [hcounters, huncounted]
    exact Nat.add_le_add_left (Nat.zero_le _) _
  cases hmove with
  | entered hstage => exact hset rfl rfl rfl (by rw [hstage]; rfl) (Nat.zero_le _)
  | @stepped asked r r' m₁ left hstage hactive hrequest =>
      have hpays := Request.pays_of_moves hformed hrequest
      rcases Request.formed_of_moves hformed hrequest with ⟨hformed₁, hadds⟩
      have huncounted := Machine.tally_setStage hformed₁ (hadds ht)
        (.gathering (asked ++ [r']) left) TaskStage.uncounted
      have hstages := Machine.tally_setStage hformed₁ (hadds ht)
        (.gathering (asked ++ [r']) left) TaskStage.joining
      simp only [hstage, TaskStage.uncounted, TaskStage.joining, List.map_append,
        Number.total_append, List.map_singleton, Number.total_cons, Number.total_nil]
        at huncounted hstages
      constructor
      · have hcompiles := hpays.compiles
        simp only [Machine.setStage] at huncounted ⊢
        omega
      · have htickets := hpays.tickets
        simp only [Machine.setStage] at hstages ⊢
        omega
  | asked hstage hlast =>
      refine hset rfl rfl rfl (by rw [hstage]; rfl) ?_
      simp [hstage, TaskStage.joining, Request.of, Request.joining]
  | gathered hstage hgathered => exact hset rfl rfl rfl (by rw [hstage]; rfl) (Nat.zero_le _)
  | counted hstage => exact hset rfl rfl rfl (by rw [hstage]; rfl) (Nat.zero_le _)
  | @answered u hstage hopen => cases b.compile u <;> exact hlate rfl rfl rfl rfl rfl
  | swept hstage' => exact absurd hstage' (hstage _)
  | _ => exact hlate rfl rfl rfl rfl rfl

/-- A task that has announced its outcome sweeps with its next move. -/
theorem eq_of_announced {o : Outcome π} (hstage : t.stage = .announced o)
    (hmove : t.Moves b gateOpen k m m') :
    m' = (m.updateTables fun tables => tables.sweepCapacity.2).setStage k (.ended o) := by
  cases hmove with
  | swept hstage' =>
      rw [hstage] at hstage'
      cases hstage'
      rfl
  | unknown hstage' =>
      rcases hstage' with hstage' | ⟨_, hstage'⟩
      · rw [hstage] at hstage'
        cases hstage'
      · rw [hstage] at hstage'
        cases hstage'
  | _ => simp_all

theorem not_announced_of_moves (ht : m.tasks.get? k = some t)
    (hmove : t.Moves b gateOpen k m m')
    (hstays : ∀ o, t.stage = .announced o → m'.tasks.get? k = some t) (o : Outcome π) :
    t.stage ≠ .announced o := by
  intro hstage
  have hsame := hstays o hstage
  rw [eq_of_announced hstage hmove, Machine.get?_setStage_self
    (m := m.updateTables fun tables => tables.sweepCapacity.2) ht] at hsame
  have hended := congrArg Task.stage (Option.some.inj hsame)
  rw [hstage] at hended
  cases hended

end Task

/-!
# Clients
-/

namespace ClientStage

/-- One if the request of the client may still take off. -/
def joining : ClientStage π → Nat
  | .requesting r _ => r.joining
  | _ => 0

variable {b : Backend π} {stage stage' : ClientStage π} {s s' : Schedule π}

theorem quiet_of_moves (hformed : s.machine.Formed)
    (hnodup : s.machine.tables.entries.keys.Nodup) (hmove : stage.Moves b s stage' s') :
    s.machine.Quiet s'.machine := by
  cases hmove with
  | goesOn hactive =>
      exact Request.quiet_of_moves hformed hnodup (Request.moves_of_step _ _ hactive)
  | receives hanswer =>
      rcases Schedule.eq_of_answer hanswer with rfl | ⟨a, rfl⟩ <;>
        exact Machine.quiet_of_tables rfl rfl rfl rfl
  | _ => exact Machine.quiet_of_tables rfl rfl rfl rfl

theorem pays_of_moves (hformed : s.machine.Formed) (hmove : stage.Moves b s stage' s') :
    s.machine.Pays stage.joining s'.machine stage'.joining := by
  have hsame {m : Machine π} {before : Nat} (htasks : m.tasks = s.machine.tasks)
      (hticket : m.tables.nextTicket = s.machine.tables.nextTicket)
      (hcounters : m.tables.counters = s.machine.tables.counters) :
      s.machine.Pays before m 0 := by
    refine Machine.pays_of_tables htasks hticket (by rw [hcounters]) ?_
    rw [hcounters]
    omega
  cases hmove with
  | goesOn hactive => exact Request.pays_of_moves hformed (Request.moves_of_step _ _ hactive)
  | receives hanswer =>
      rcases Schedule.eq_of_answer hanswer with rfl | ⟨a, rfl⟩ <;> exact hsame rfl rfl rfl
  | _ => exact hsame rfl rfl rfl

end ClientStage

/-!
# The world
-/

theorem Number.total_le_of_sublist {xs ys : List Nat} (h : xs.Sublist ys) :
    Number.total xs ≤ Number.total ys := by
  induction h with
  | slnil => exact Nat.le_refl _
  | cons y hsub ih => exact Nat.le_trans ih (Nat.le_add_left _ _)
  | cons_cons y hsub ih => exact Nat.add_le_add_left ih _

namespace World

variable {backends : Set (Backend π)} {b : Backend π} {w w' : World π}

/-- All requests that have been counted as misses and may still take off. -/
def joining (w : World π) : Nat :=
  Number.total (w.clients.map fun c => c.stage.joining) +
    Number.total (w.schedule.batches.values.map fun rs => Number.total (rs.map Request.joining)) +
    w.machine.tally TaskStage.joining

/-- Each compile goes back to a ticket, and each ticket to a miss. -/
structure Solvent (w : World π) : Prop where
  compiles : w.machine.tables.counters.compiles + w.machine.tally TaskStage.uncounted ≤
    w.machine.tables.nextTicket
  tickets : w.machine.tables.nextTicket + w.joining ≤ w.machine.tables.counters.misses

/-- No task that has announced its outcome goes on. -/
def Unswept (w w' : World π) : Prop :=
  ∀ ⦃k t o⦄, w.machine.tasks.get? k = some t → t.stage = .announced o →
    w'.machine.tasks.get? k = some t

theorem Solvent.of_pays (h : w.Solvent) {before after : Nat}
    (hpays : w.machine.Pays before w'.machine after)
    (hjoining : w'.joining + w.machine.tally TaskStage.joining + before =
      w.joining + w'.machine.tally TaskStage.joining + after) : w'.Solvent := by
  have hcompiles := h.compiles
  have htickets := h.tickets
  have hpaid := hpays.compiles
  have hmissed := hpays.tickets
  constructor <;> omega

theorem Solvent.of_machine_eq (h : w.Solvent) (hmachine : w'.machine = w.machine)
    (hjoining : w'.joining ≤ w.joining) : w'.Solvent := by
  have htickets := h.tickets
  constructor
  · rw [hmachine]
    exact h.compiles
  · rw [hmachine]
    omega

theorem Solvent.work (h : w.Solvent) (hformed : w.schedule.Formed) (hwork : w.Work b w')
    (hunswept : w.Unswept w') : w'.Solvent := by
  cases hwork with
  | job hjob =>
      cases Schedule.steps_of_stepJob hjob with
      | @task k t m ht hmove =>
          have hstage := Task.not_announced_of_moves ht hmove fun o ho => hunswept ht ho
          exact h.of_pays (Task.pays_of_moves hformed.machine ht hmove hstage)
            (by simp only [joining]; omega)
      | @batch number before after r r' m hbatch hactive hmove =>
          have hbatches := Table.total_insert hformed.batches hbatch (before ++ r' :: after)
            fun rs => Number.total (rs.map Request.joining)
          simp only [List.map_append, List.map_cons, Number.total_append,
            Number.total_cons] at hbatches
          exact h.of_pays (Request.pays_of_moves hformed.machine hmove)
            (by simp only [joining]; omega)
  | @client before after c stage s hclients hmove =>
      have hsame := (ClientStage.same_of_moves hmove).left
      refine h.of_pays (ClientStage.pays_of_moves hformed.machine hmove) ?_
      simp only [joining, hclients, hsame, List.map_append, List.map_cons, Number.total_append,
        Number.total_cons]
      omega

theorem balances_of_work (hformed : w.schedule.Formed)
    (hnodup : w.machine.tables.entries.keys.Nodup) (hwork : w.Work b w')
    (hunswept : w.Unswept w') : w.machine.Balances w'.machine := by
  cases hwork with
  | job hjob =>
      cases Schedule.steps_of_stepJob hjob with
      | task ht hmove =>
          exact Task.balances_of_moves hformed.machine hnodup ht hmove
            (Task.not_announced_of_moves ht hmove fun o ho => hunswept ht ho)
      | batch hbatch hactive hmove =>
          exact (Request.quiet_of_moves hformed.machine hnodup hmove).balances
  | client hclients hmove =>
      exact (ClientStage.quiet_of_moves hformed.machine hnodup hmove).balances

/-!
# Calls, cancellations and batches
-/

theorem total_joining_of (rows : List (Context × ProjectId)) :
    Number.total ((rows.map fun row => (Request.of row.1 row.2 : Request π)).map
      Request.joining) = 0 := by
  induction rows with
  | nil => rfl
  | cons row rows ih => simpa [Request.joining, Request.of] using ih

/-- What is new has nothing that could take off at once. -/
theorem joining_le_of_aside (hformed : w.schedule.Formed) (hstep : w.Step b w')
    (hmachine : w'.machine = w.machine) :
    w'.joining ≤ w.joining ∨ w.Work b w' := by
  have htasks := Machine.tally_of_tasks_eq (congrArg Machine.tasks hmachine) TaskStage.joining
  cases hstep with
  | work hwork => exact .inr hwork
  | call call =>
      left
      simp [joining, ClientStage.joining]
  | cancel hclients hin =>
      left
      simp only [joining, hclients, ClientStage.joining, List.map_append, List.map_cons,
        Number.total_append, Number.total_cons]
      omega
  | batch rows =>
      left
      have hfresh := total_joining_of (π := π) rows
      simp only [joining, Schedule.startBatch]
      cases hold : w.schedule.batches.get? w.schedule.nextBatch with
      | none =>
          rw [Table.values_insert_of_get?_none hold, List.map_append, Number.total_append,
            List.map_singleton, Number.total_cons, hfresh]
          exact Nat.le_refl _
      | some old =>
          have hbatches := Table.total_insert hformed.batches hold
            (rows.map fun row => (Request.of row.1 row.2 : Request π))
            fun rs => Number.total (rs.map Request.joining)
          rw [hfresh] at hbatches
          change _ + _ + w.machine.tally TaskStage.joining ≤ _
          omega
  | abort number =>
      left
      have hfewer := Number.total_le_of_sublist
        (((List.filter_sublist (p := fun row : Nat × List (Request π) => decide (row.1 ≠ number))
          (l := w.schedule.batches.rows)).map Prod.snd).map
          fun rs => Number.total (rs.map Request.joining))
      simp only [joining, Schedule.abortBatch, Table.values, Table.erase]
      change _ + _ + w.machine.tally TaskStage.joining ≤ _
      omega
  | leave hqueue hjob => exact .inl (Nat.le_refl _)
  | upkeep u => exact .inl (Nat.le_of_eq (by simp only [joining, htasks]; rfl))
  | tick elapsed => exact .inl (Nat.le_refl _)

theorem schedule_formed_of_turn {allowed : Set Upkeep} (hformed : w.schedule.Formed)
    (hturn : w.Turn backends allowed w') : w'.schedule.Formed := by
  cases hturn with
  | work hb hwork hspares => exact formed_of_work hformed hwork
  | aside hb hstep hmachine =>
      have hmachine' : w'.schedule.machine = w.schedule.machine := hmachine
      refine ⟨hmachine' ▸ hformed.machine, ?_⟩
      cases hstep with
      | work hwork => exact (formed_of_work hformed hwork).batches
      | batch rows => exact Table.nodup_keys_insert hformed.batches _ _
      | abort number => exact Table.nodup_keys_erase hformed.batches _
      | _ => exact hformed.batches
  | upkeep hu hspares => exact hformed.updateTables (Upkeep.within _ _).nextTicket
  | tick elapsed => exact hformed.updateTables rfl

theorem schedule_formed_of_attained {allowed : Set Upkeep} {settings : CacheSettings}
    (h : w.Attained backends allowed settings) : w.schedule.Formed := by
  induction h with
  | refl => exact ⟨Machine.formed_new settings, List.nodup_nil⟩
  | tail _ hturn ih => exact schedule_formed_of_turn ih hturn

theorem Solvent.turn (h : w.Solvent) (hformed : w.schedule.Formed)
    (hturn : w.Turn backends ∅ w') (hunswept : w.Unswept w') : w'.Solvent := by
  cases hturn with
  | work hb hwork hspares => exact h.work hformed hwork hunswept
  | aside hb hstep hmachine =>
      rcases joining_le_of_aside hformed hstep hmachine with hjoining | hwork
      · exact h.of_machine_eq hmachine hjoining
      · exact h.work hformed hwork hunswept
  | upkeep hu hspares => cases hu
  | tick elapsed => exact ⟨h.compiles, h.tickets⟩

theorem balances_of_turn (hformed : w.schedule.Formed)
    (hnodup : w.machine.tables.entries.keys.Nodup) (hturn : w.Turn backends ∅ w')
    (hunswept : w.Unswept w') : w.machine.Balances w'.machine := by
  cases hturn with
  | work hb hwork hspares => exact balances_of_work hformed hnodup hwork hunswept
  | aside hb hstep hmachine =>
      rw [hmachine]
      exact (Machine.quiet_of_tables rfl rfl rfl rfl).balances
  | upkeep hu hspares => cases hu
  | tick elapsed =>
      have hquiet : w.machine.Quiet (w.machine.updateTables fun t =>
          { t with clock := t.clock + elapsed }) := Machine.quiet_of_tables rfl rfl rfl rfl
      exact hquiet.balances

end World
end Cache
end Ripple
