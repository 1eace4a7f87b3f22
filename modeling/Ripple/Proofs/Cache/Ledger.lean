import Ripple.Proofs.Cache.Accounts

/-!
# What the counters add up to

A sweep notes entries, and then takes them out one by one, each time looking again at how the
entry has been used. The listings of an entry go after it, and what has been taken out is
counted in the end. Anything may come in between. A ledger says which sweeps are
under way, which compiles have left no new entry, and what has been invalidated.
-/

namespace Ripple
namespace Cache

variable {π : Type}

/-!
# Invalidations
-/

/-- Invalidations, and the single removals that they consist of. -/
def Upkeep.IsInvalidation : Upkeep → Prop
  | .invalidate _ _ | .invalidateDownstream _ _ _ | .invalidateSession _ | .dropFlight _
  | .dropEntry _ | .dropListings _ => True
  | _ => False

theorem Tables.counters_invalidateAll (t : Tables π) (session : SessionId)
    (ids : List ProjectId) : (t.invalidateAll session ids).counters = t.counters := by
  induction ids generalizing t with
  | nil => rfl
  | cons id ids ih => exact ih (t.invalidate session id)

theorem Upkeep.IsInvalidation.counters_eq {u : Upkeep} (hu : u.IsInvalidation) (t : Tables π) :
    (u.apply t).counters = t.counters := by
  cases u with
  | invalidateDownstream session g project => exact t.counters_invalidateAll session _
  | sweepExpired | sweepCapacity | countEvictions => exact hu.elim
  | _ => rfl

theorem Machine.updateTables_congr {m : Machine π} {f g : Tables π → Tables π}
    (h : f m.tables = g m.tables) : m.updateTables f = m.updateTables g := by
  rw [updateTables, updateTables, h]

/-!
# Ledgers
-/

/-- A sweep under way. -/
structure Sweeping where
  /-- The ticket of the task that enforces the capacity, if it is one. -/
  owner : Option Nat
  /-- The entries that are still to be looked at, with their uses as they have been noted. -/
  left : List (Slot × Nat)
  /-- The slot whose entry has just been taken out and whose listings are still there. -/
  stale : Option Slot
  removed : Nat

/-- The world with what is known of sweeps, compiles and invalidations. -/
structure Ledger (π : Type) where
  world : World π
  sweeping : List Sweeping
  /-- The compiles that have left no new entry, with the tickets of their tasks. -/
  wasted : List (Nat × Waste)
  invalidations : List Upkeep

namespace Ledger

abbrev machine (c : Ledger π) : Machine π := c.world.machine

abbrev tables (c : Ledger π) : Tables π := c.machine.tables

def update (c : Ledger π) (f : Machine π → Machine π) : Ledger π :=
  { c with world := { c.world with schedule := { c.world.schedule with machine := f c.machine } } }

theorem update_congr (c : Ledger π) {f g : Machine π → Machine π}
    (h : f c.machine = g c.machine) : c.update f = c.update g := by
  rw [update, update, h]

def updateTables (c : Ledger π) (f : Tables π → Tables π) : Ledger π :=
  c.update fun m => m.updateTables f

def start (settings : CacheSettings) : Ledger π :=
  ⟨.start settings, [], [], []⟩

/-- What a sweep notes is left open, since others may come in between while it looks. -/
inductive Step (backends : Set (Backend π)) (c : Ledger π) : Ledger π → Prop where
  | turn {w : World π} (hturn : c.world.Turn backends ∅ w) (hunswept : c.world.Unswept w) :
      Step backends c { c with world := w, wasted := c.wasted ++ c.machine.wastes w.machine }
  | invalidates {u : Upkeep} (hu : u.IsInvalidation)
      (hspares : c.machine.Spares (c.machine.updateTables u.apply)) :
      Step backends c
        { c.updateTables u.apply with invalidations := c.invalidations ++ [u] }
  | begins (noted : List (Slot × Nat)) :
      Step backends c { c with sweeping := c.sweeping ++ [⟨none, noted, none, 0⟩] }
  /-- A task begins to enforce the capacity. -/
  | enforces {k : Nat} {t : Task π} {o : Outcome π} (ht : c.machine.tasks.get? k = some t)
      (hstage : t.stage = .announced o) (hnew : ∀ s ∈ c.sweeping, s.owner ≠ some k)
      (noted : List (Slot × Nat)) :
      Step backends c { c with sweeping := c.sweeping ++ [⟨some k, noted, none, 0⟩] }
  /-- An entry is taken out that has not been used since it was noted. -/
  | removes {before after : List Sweeping} {owner : Option Nat} {slot : Slot} {e : Entry π}
      {left : List (Slot × Nat)} {n : Nat}
      (hsweeping : c.sweeping = before ++ ⟨owner, (slot, e.lastAccess) :: left, none, n⟩ :: after)
      (he : c.tables.entries.get? slot = some e) :
      Step backends c
        { c.updateTables fun t => t.dropEntry slot with
          sweeping := before ++ ⟨owner, left, some slot, n + 1⟩ :: after }
  | forgets {before after : List Sweeping} {owner : Option Nat} {slot : Slot}
      {left : List (Slot × Nat)} {n : Nat}
      (hsweeping : c.sweeping = before ++ ⟨owner, left, some slot, n⟩ :: after) :
      Step backends c
        { c.updateTables fun t => t.dropListings slot with
          sweeping := before ++ ⟨owner, left, none, n⟩ :: after }
  /-- The entry is gone, or it has been used in between. -/
  | spares {before after : List Sweeping} {owner : Option Nat} {use : Slot × Nat}
      {left : List (Slot × Nat)} {n : Nat}
      (hsweeping : c.sweeping = before ++ ⟨owner, use :: left, none, n⟩ :: after)
      (hused : ∀ e, c.tables.entries.get? use.1 = some e → e.lastAccess ≠ use.2) :
      Step backends c { c with sweeping := before ++ ⟨owner, left, none, n⟩ :: after }
  | counts {before after : List Sweeping} {n : Nat}
      (hsweeping : c.sweeping = before ++ ⟨none, [], none, n⟩ :: after) :
      Step backends c
        { c.updateTables fun t => t.countEvictions n with sweeping := before ++ after }
  /-- So does a task, which has nothing more to do. -/
  | ends {before after : List Sweeping} {k : Nat} {t : Task π} {o : Outcome π} {n : Nat}
      (hsweeping : c.sweeping = before ++ ⟨some k, [], none, n⟩ :: after)
      (ht : c.machine.tasks.get? k = some t) (hstage : t.stage = .announced o) :
      Step backends c
        { c.update fun m => (m.updateTables fun t => t.countEvictions n).setStage k (.ended o) with
          sweeping := before ++ after }

/-- What a ledger of a fresh cache can come to say. -/
def Kept (backends : Set (Backend π)) (settings : CacheSettings) (c : Ledger π) : Prop :=
  Relation.ReflTransGen (Step backends) (start settings) c

/-!
# The books
-/

/-- What sweeps have taken out and not counted yet. -/
def removed (c : Ledger π) : Nat :=
  Number.total (c.sweeping.map Sweeping.removed)

/-- The compiles of which it is known what has become of them, or that are under way. -/
def accounted (c : Ledger π) : Nat :=
  c.tables.entries.size + c.tables.counters.evictions + c.removed + c.wasted.length +
    c.machine.tally TaskStage.undecided

structure Sound (c : Ledger π) : Prop where
  formed : c.world.schedule.Formed
  nodup : c.tables.entries.keys.Nodup
  solvent : c.world.Solvent
  le : c.accounted ≤ c.tables.counters.compiles
  /-- Only invalidations take anything out that is not counted. -/
  eq : c.invalidations = [] → c.accounted = c.tables.counters.compiles

theorem sound_start (settings : CacheSettings) : (start settings : Ledger π).Sound where
  formed := ⟨Machine.formed_new settings, List.nodup_nil⟩
  nodup := List.nodup_nil
  solvent := ⟨Nat.le_refl 0, Nat.le_refl 0⟩
  le := Nat.le_refl 0
  eq _ := rfl

variable {backends : Set (Backend π)} {settings : CacheSettings} {c c' : Ledger π}

theorem Sound.turn (h : c.Sound) {w : World π} (hturn : c.world.Turn backends ∅ w)
    (hunswept : c.world.Unswept w) :
    Sound { c with world := w, wasted := c.wasted ++ c.machine.wastes w.machine } := by
  have hbalances := World.balances_of_turn h.formed h.nodup hturn hunswept
  have haccounted :
      accounted { c with world := w, wasted := c.wasted ++ c.machine.wastes w.machine } +
        c.tables.counters.compiles = c.accounted + w.machine.tables.counters.compiles := by
    have hevictions := hbalances.evictions
    have hcompiles := hbalances.compiles
    simp only [accounted, removed, tables, machine, List.length_append] at hevictions hcompiles ⊢
    omega
  have hle := h.le
  refine ⟨World.schedule_formed_of_turn h.formed hturn, (World.keeps_of_turn hturn).right h.nodup,
    h.solvent.turn h.formed hturn hunswept, ?_, fun hnone => ?_⟩
  · change _ ≤ w.machine.tables.counters.compiles
    omega
  · have heq := h.eq hnone
    change _ = w.machine.tables.counters.compiles
    omega

/-- What sweeps do to the tables is made up for by what they have taken out. -/
theorem Sound.sweep (h : c.Sound) {f : Tables π → Tables π} {sweeping : List Sweeping}
    (hwithin : c.tables.Within (f c.tables)) (hkeeps : c.tables.Keeps (f c.tables))
    (hcounters : (f c.tables).counters =
      { c.tables.counters with evictions := (f c.tables).counters.evictions })
    (hremoved : (f c.tables).entries.size + (f c.tables).counters.evictions +
        Number.total (sweeping.map Sweeping.removed) =
      c.tables.entries.size + c.tables.counters.evictions + c.removed) :
    Sound { c.updateTables f with sweeping := sweeping } := by
  have hcompiles : (f c.tables).counters.compiles = c.tables.counters.compiles := by rw [hcounters]
  have hmisses : (f c.tables).counters.misses = c.tables.counters.misses := by rw [hcounters]
  have hticket := hwithin.nextTicket
  have haccounted : accounted { c.updateTables f with sweeping := sweeping } = c.accounted := by
    change (f c.tables).entries.size + (f c.tables).counters.evictions +
      Number.total (sweeping.map Sweeping.removed) + c.wasted.length +
      c.machine.tally TaskStage.undecided = c.accounted
    rw [hremoved]
    rfl
  refine ⟨h.formed.updateTables hticket, hkeeps.right h.nodup, ⟨?_, ?_⟩, ?_, fun hnone => ?_⟩
  · change (f c.tables).counters.compiles + c.machine.tally TaskStage.uncounted ≤
      (f c.tables).nextTicket
    rw [hcompiles, hticket]
    exact h.solvent.compiles
  · change (f c.tables).nextTicket + c.world.joining ≤ (f c.tables).counters.misses
    rw [hmisses, hticket]
    exact h.solvent.tickets
  · rw [haccounted]
    exact hcompiles ▸ h.le
  · rw [haccounted]
    exact (h.eq hnone).trans hcompiles.symm

/-- A task that has nothing more to do ends. -/
theorem Sound.ends (h : c.Sound) {k : Nat} {t : Task π} {o : Outcome π}
    (ht : c.machine.tasks.get? k = some t) (hstage : t.stage = .announced o) :
    (c.update fun m => m.setStage k (.ended o)).Sound := by
  have hsame (f : TaskStage π → Nat) (hf : f (.ended o) = f (.announced o)) :
      (c.machine.setStage k (.ended o)).tally f = c.machine.tally f := by
    have htally := Machine.tally_setStage h.formed.machine ht (.ended o) f
    rw [hstage, hf] at htally
    exact Nat.add_right_cancel htally
  have haccounted : (c.update fun m => m.setStage k (.ended o)).accounted = c.accounted :=
    congrArg (c.tables.entries.size + c.tables.counters.evictions + c.removed +
      c.wasted.length + ·) (hsame TaskStage.undecided rfl)
  have hjoining : (c.update fun m => m.setStage k (.ended o)).world.joining = c.world.joining :=
    congrArg (Number.total (c.world.clients.map fun c => c.stage.joining) +
      Number.total (c.world.schedule.batches.values.map fun rs =>
        Number.total (rs.map Request.joining)) + ·) (hsame TaskStage.joining rfl)
  refine ⟨⟨h.formed.machine.setStage k _, h.formed.batches⟩, h.nodup, ⟨?_, ?_⟩, ?_, ?_⟩
  · change c.tables.counters.compiles +
      (c.machine.setStage k (.ended o)).tally TaskStage.uncounted ≤ c.tables.nextTicket
    rw [hsame TaskStage.uncounted rfl]
    exact h.solvent.compiles
  · rw [hjoining]
    exact h.solvent.tickets
  · rw [haccounted]
    exact h.le
  · rw [haccounted]
    exact h.eq

theorem Sound.invalidates (h : c.Sound) {u : Upkeep} (hu : u.IsInvalidation) :
    Sound { c.updateTables u.apply with invalidations := c.invalidations ++ [u] } := by
  have hcounters := hu.counters_eq c.tables
  have hwithin := u.within c.tables
  have hnodup := (u.keeps c.tables).right h.nodup
  have hsize := Tables.size_le_of_stored hnodup hwithin.stored?
  refine ⟨h.formed.updateTables hwithin.nextTicket, hnodup, ⟨?_, ?_⟩, ?_, fun hnone => ?_⟩
  · change (u.apply c.tables).counters.compiles + c.machine.tally TaskStage.uncounted ≤
      (u.apply c.tables).nextTicket
    rw [hcounters, hwithin.nextTicket]
    exact h.solvent.compiles
  · change (u.apply c.tables).nextTicket + c.world.joining ≤ (u.apply c.tables).counters.misses
    rw [hcounters, hwithin.nextTicket]
    exact h.solvent.tickets
  · have hle := h.le
    change (u.apply c.tables).entries.size + (u.apply c.tables).counters.evictions + c.removed +
      c.wasted.length + c.machine.tally TaskStage.undecided ≤ (u.apply c.tables).counters.compiles
    rw [hcounters]
    simp only [accounted] at hle
    omega
  · exact absurd hnone (by simp)

theorem removed_eq {before after : List Sweeping} {s : Sweeping}
    (h : c.sweeping = before ++ s :: after) :
    c.removed = Number.total (before.map Sweeping.removed) + s.removed +
      Number.total (after.map Sweeping.removed) := by
  simp only [removed, h, List.map_append, List.map_cons, Number.total_append, Number.total_cons]
  omega

theorem Sound.step (h : c.Sound) (hstep : c.Step backends c') : c'.Sound := by
  cases hstep with
  | turn hturn hunswept => exact h.turn hturn hunswept
  | invalidates hu hspares => exact h.invalidates hu
  | begins noted =>
      refine h.sweep (f := id) (.refl _) (.refl _) rfl ?_
      simp [removed]
  | enforces ht hstage hnew noted =>
      refine h.sweep (f := id) (.refl _) (.refl _) rfl ?_
      simp [removed]
  | @removes before after owner slot e left n hsweeping he =>
      refine h.sweep (Tables.within_dropEntry _ slot) (Tables.keeps_dropEntry _ slot) rfl ?_
      have hsize : (c.tables.dropEntry slot).entries.size + 1 = c.tables.entries.size :=
        Table.size_erase h.nodup he
      rw [removed_eq hsweeping]
      simp only [List.map_append, List.map_cons, Number.total_append, Number.total_cons]
      change (c.tables.dropEntry slot).entries.size + c.tables.counters.evictions + _ = _
      omega
  | @forgets before after owner slot left n hsweeping =>
      refine h.sweep (Tables.within_dropListings _ slot) ⟨rfl, id⟩ rfl ?_
      rw [removed_eq hsweeping]
      simp only [List.map_append, List.map_cons, Number.total_append, Number.total_cons]
      change c.tables.entries.size + c.tables.counters.evictions + _ = _
      omega
  | @spares before after owner use left n hsweeping hused =>
      refine h.sweep (f := id) (.refl _) (.refl _) rfl ?_
      rw [removed_eq hsweeping]
      simp only [List.map_append, List.map_cons, Number.total_append, Number.total_cons, id]
      omega
  | @counts before after n hsweeping =>
      refine h.sweep (Tables.within_countEvictions _ n) ⟨rfl, id⟩ rfl ?_
      rw [removed_eq hsweeping]
      simp only [List.map_append, Number.total_append]
      change c.tables.entries.size + (c.tables.counters.evictions + n) + _ = _
      omega
  | @ends before after k t o n hsweeping ht hstage =>
      have hcounted : Sound
          { c.updateTables fun t => t.countEvictions n with sweeping := before ++ after } := by
        refine h.sweep (Tables.within_countEvictions _ n) ⟨rfl, id⟩ rfl ?_
        rw [removed_eq hsweeping]
        simp only [List.map_append, Number.total_append]
        change c.tables.entries.size + (c.tables.counters.evictions + n) + _ = _
        omega
      exact hcounted.ends ht hstage

theorem sound_of_kept (h : c.Kept backends settings) : c.Sound := by
  induction h with
  | refl => exact sound_start settings
  | tail _ hstep ih => exact ih.step hstep

theorem tally_of_ended {m : Machine π} (hnodup : m.tasks.keys.Nodup)
    (h : ∀ k t, m.tasks.get? k = some t → t.stage.isEnded) {f : TaskStage π → Nat}
    (hf : ∀ o, f (.ended o) = 0) : m.tally f = 0 := by
  have hvalues : ∀ t ∈ m.tasks.values, f t.stage = 0 := by
    intro t ht
    rcases List.mem_map.mp ht with ⟨row, hrow, rfl⟩
    have hended := h row.1 row.2 (Table.get?_of_mem_rows hnodup hrow)
    cases hstage : row.2.stage with
    | ended o => exact hf o
    | _ =>
        rw [hstage] at hended
        cases hended
  rw [Machine.tally]
  generalize m.tasks.values = tasks at hvalues
  induction tasks with
  | nil => rfl
  | cons t ts ih =>
      rw [List.forall_mem_cons] at hvalues
      rw [List.map_cons, Number.total_cons, hvalues.left, ih hvalues.right]

/-- Whatever has been counted and taken out so far, there are no more entries and evictions
than compiles, and no more compiles than misses. If nothing has been invalidated and neither a
task nor a sweep is under way then entries, evictions and the compiles that have failed, been
superseded or replaced an entry make up all compiles. -/
theorem counters_add_up (h : c.Kept backends settings) :
    c.tables.entries.size + c.tables.counters.evictions ≤ c.tables.counters.compiles ∧
      c.tables.counters.compiles ≤ c.tables.counters.misses ∧
      (c.invalidations = [] → (∀ k t, c.machine.tasks.get? k = some t → t.stage.isEnded) →
        c.sweeping = [] →
        c.tables.entries.size + c.tables.counters.evictions + c.wasted.length =
          c.tables.counters.compiles) := by
  have hsound := sound_of_kept h
  have hle := hsound.le
  have hcompiles := hsound.solvent.compiles
  have htickets := hsound.solvent.tickets
  simp only [accounted, tables, machine] at hle hcompiles htickets ⊢
  refine ⟨by omega, by omega, fun hnone hended hidle => ?_⟩
  have heq := hsound.eq hnone
  have hundecided : c.machine.tally TaskStage.undecided = 0 :=
    tally_of_ended hsound.formed.machine.nodup hended fun _ => rfl
  have hremoved : c.removed = 0 := by
    rw [removed, hidle]
    rfl
  simp only [accounted, tables, machine] at heq hundecided
  omega

/-!
# Sweeps with nothing in between
-/

/-- One step after another. -/
def Leads (backends : Set (Backend π)) : Ledger π → Ledger π → Prop :=
  Relation.ReflTransGen (Step backends)

/-- A sweep takes out what it can. -/
theorem leads_evictAll (backends : Set (Backend π)) (noted : List (Slot × Nat))
    {before : List Sweeping} {owner : Option Nat} {n : Nat} {c : Ledger π}
    (h : c.sweeping = before ++ [⟨owner, noted, none, n⟩]) :
    c.Leads backends
      { c.updateTables fun t => (t.evictAll noted).2 with
        sweeping := before ++ [⟨owner, [], none, n + (c.tables.evictAll noted).1⟩] } := by
  induction noted generalizing c n with
  | nil =>
      change c.Leads backends { c with sweeping := before ++ [⟨owner, [], none, n⟩] }
      rw [← h]
      exact .refl
  | cons use noted ih =>
      rcases use with ⟨slot, seen⟩
      -- The entry may be gone, or it may have been used since it was noted.
      have hspared (hevict : c.tables.evict slot seen = none)
          (hused : ∀ e, c.tables.entries.get? slot = some e → e.lastAccess ≠ seen) :
          c.Leads backends
            { c.updateTables fun t => (t.evictAll ((slot, seen) :: noted)).2 with
              sweeping := before ++
                [⟨owner, [], none, n + (c.tables.evictAll ((slot, seen) :: noted)).1⟩] } := by
        have hrest := ih (c := { c with sweeping := before ++ [⟨owner, noted, none, n⟩] }) rfl
        have hsame : c.tables.evictAll ((slot, seen) :: noted) = c.tables.evictAll noted := by
          rw [Tables.evictAll, hevict]
        have htables : (c.updateTables fun t => (t.evictAll ((slot, seen) :: noted)).2) =
            c.updateTables fun t => (t.evictAll noted).2 :=
          congrArg (fun t => c.updateTables fun _ => t) (congrArg Prod.snd hsame)
        rw [htables, hsame]
        exact .head (.spares h hused) hrest
      cases he : c.tables.entries.get? slot with
      | none => exact hspared (by rw [Tables.evict, he]) (by simp [he])
      | some e =>
          by_cases hseen : e.lastAccess = seen
          · subst hseen
            have hevict : c.tables.evict slot e.lastAccess =
                some ((c.tables.dropEntry slot).dropListings slot) := by
              rw [Tables.evict, he]
              exact if_pos rfl
            let t := (c.tables.dropEntry slot).dropListings slot
            have hsame : c.tables.evictAll ((slot, e.lastAccess) :: noted) =
                ((t.evictAll noted).1 + 1, (t.evictAll noted).2) := by
              rw [Tables.evictAll, hevict]
            have htables :
                (c.updateTables fun t => (t.evictAll ((slot, e.lastAccess) :: noted)).2) =
                  c.updateTables fun _ => (t.evictAll noted).2 :=
              congrArg (fun t => c.updateTables fun _ => t) (by rw [hsame])
            have hrest := ih (n := n + 1)
              (c := { c.updateTables fun _ => t with
                sweeping := before ++ [⟨owner, noted, none, n + 1⟩] }) rfl
            have hcount : n + 1 + (t.evictAll noted).1 = n + ((t.evictAll noted).1 + 1) := by omega
            rw [htables, hsame, ← hcount]
            exact .head (.removes h he) (.head (.forgets rfl) hrest)
          · refine hspared ?_ ?_
            · rw [Tables.evict, he]
              exact if_neg hseen
            · intro e' he'
              rw [he] at he'
              cases he'
              exact hseen

/-- The sweep of the tables is what a sweep comes to if nothing comes in between. -/
theorem leads_sweep (backends : Set (Backend π)) (c : Ledger π) (noted : List (Slot × Nat)) :
    c.Leads backends (c.updateTables fun t => (t.sweep noted).2) := by
  have hswept := leads_evictAll backends noted (n := 0)
    (c := { c with sweeping := c.sweeping ++ [⟨none, noted, none, 0⟩] }) rfl
  have hcounted : Step backends
      { c.updateTables fun t => (t.evictAll noted).2 with
        sweeping := c.sweeping ++ [⟨none, [], none, 0 + (c.tables.evictAll noted).1⟩] }
      (c.updateTables fun t => (t.sweep noted).2) := by
    have hcounts : Step backends
        { c.updateTables fun t => (t.evictAll noted).2 with
          sweeping := c.sweeping ++ [⟨none, [], none, 0 + (c.tables.evictAll noted).1⟩] } _ :=
      .counts rfl
    rw [List.append_nil, Nat.zero_add] at hcounts
    rw [Nat.zero_add]
    exact hcounts
  exact (Relation.ReflTransGen.head (.begins noted) hswept).tail hcounted

/-- A task that sweeps ends with that. -/
theorem leads_ended (backends : Set (Backend π)) {c : Ledger π} {k : Nat} {t : Task π}
    {o : Outcome π} (ht : c.machine.tasks.get? k = some t) (hstage : t.stage = .announced o)
    (hnew : ∀ s ∈ c.sweeping, s.owner ≠ some k) (noted : List (Slot × Nat)) :
    c.Leads backends (c.update fun m =>
      (m.updateTables fun tables => (tables.sweep noted).2).setStage k (.ended o)) := by
  have hswept := leads_evictAll backends noted (n := 0)
    (c := { c with sweeping := c.sweeping ++ [⟨some k, noted, none, 0⟩] }) rfl
  have hended : Step backends
      { c.updateTables fun t => (t.evictAll noted).2 with
        sweeping := c.sweeping ++ [⟨some k, [], none, 0 + (c.tables.evictAll noted).1⟩] }
      (c.update fun m =>
        (m.updateTables fun tables => (tables.sweep noted).2).setStage k (.ended o)) := by
    have hends : Step backends
        { c.updateTables fun t => (t.evictAll noted).2 with
          sweeping := c.sweeping ++ [⟨some k, [], none, 0 + (c.tables.evictAll noted).1⟩] } _ :=
      .ends rfl ht hstage
    rw [List.append_nil, Nat.zero_add] at hends
    rw [Nat.zero_add]
    exact hends
  exact (Relation.ReflTransGen.head (.enforces ht hstage hnew noted) hswept).tail hended

/-- So the last move of a task is a sweep with nothing in between. -/
theorem leads_swept (backends : Set (Backend π)) {c : Ledger π} {k : Nat} {t : Task π}
    {o : Outcome π} (ht : c.machine.tasks.get? k = some t) (hstage : t.stage = .announced o)
    (hnew : ∀ s ∈ c.sweeping, s.owner ≠ some k) :
    c.Leads backends (c.update fun m =>
      (m.updateTables fun tables => tables.sweepCapacity.2).setStage k (.ended o)) := by
  have htables : c.machine.updateTables (fun tables => tables.sweepCapacity.2) =
      c.machine.updateTables fun tables => (tables.sweep c.tables.surplus).2 :=
    Machine.updateTables_congr rfl
  have hupdate : (c.update fun m =>
        (m.updateTables fun tables => tables.sweepCapacity.2).setStage k (.ended o)) =
      c.update fun m =>
        (m.updateTables fun tables => (tables.sweep c.tables.surplus).2).setStage k (.ended o) :=
    c.update_congr (congrArg (Machine.setStage · k (.ended o)) htables)
  rw [hupdate]
  exact leads_ended backends ht hstage hnew c.tables.surplus

/-- Every turn can be kept in a ledger, also one in which a task sweeps at one go. -/
theorem leads_of_turn (hformed : c.world.schedule.Formed)
    (hnodup : c.tables.entries.keys.Nodup) (hidle : c.sweeping = []) {w : World π}
    (hturn : c.world.Turn backends ∅ w) :
    ∃ wasted, c.Leads backends { c with world := w, wasted := wasted } := by
  by_cases hunswept : c.world.Unswept w
  · exact ⟨_, .single (.turn hturn hunswept)⟩
  · have hformed' := hformed.machine
    -- Whoever has announced its outcome and moves, sweeps.
    have hstays (hadds : c.machine.Adds w.machine) : c.world.Unswept w :=
      fun k t o ht _ => hadds ht
    cases hturn with
    | @work b w hb hwork hspares =>
        cases hwork with
        | job hjob =>
            cases Schedule.steps_of_stepJob hjob with
            | @task k t m ht hmove =>
                by_cases hstage : ∃ o, t.stage = .announced o
                · rcases hstage with ⟨o, hstage⟩
                  have hm : m = (c.machine.updateTables fun tables =>
                      tables.sweepCapacity.2).setStage k (.ended o) :=
                    Task.eq_of_announced hstage hmove
                  have htaken : Schedule.takenOff c.machine m = [] := by
                    rw [hm]
                    exact Schedule.takenOff_eq_nil (Tables.within_sweepCapacity _).nextTicket
                  have hwoken : c.world.schedule.woken c.machine m k = [] := by
                    simp [Schedule.woken, Machine.outcome?, ht, hstage, TaskStage.outcome?]
                  refine ⟨c.wasted, ?_⟩
                  rw [htaken, hwoken, List.append_nil, List.append_nil, hm]
                  refine leads_swept backends ht hstage fun sweep hsweep => ?_
                  rw [hidle] at hsweep
                  cases hsweep
                · refine absurd (fun k' t' o ht' hstage' => ?_) hunswept
                  refine Task.get?_of_moves hformed' hmove (fun hk => ?_) ht'
                  rw [hk, ht] at ht'
                  cases ht'
                  exact hstage ⟨o, hstage'⟩
            | batch hbatch hactive hmove =>
                exact absurd (hstays (Request.formed_of_moves hformed' hmove).right) hunswept
        | client hclients hmove =>
            exact absurd (hstays (ClientStage.quiet_of_moves hformed' hnodup hmove).adds) hunswept
    | aside hb hstep hmachine =>
        exact absurd (hstays (Machine.adds_of_tasks_eq (congrArg Machine.tasks hmachine))) hunswept
    | upkeep hu hspares => cases hu
    | tick elapsed => exact absurd (hstays (Machine.adds_of_tasks_eq rfl)) hunswept

theorem Kept.leads (h : c.Kept backends settings) (hidle : c.sweeping = []) {w : World π}
    (hleads : c.world.Leads backends ∅ w) :
    ∃ wasted, Kept backends settings { c with world := w, wasted := wasted } := by
  induction hleads with
  | refl => exact ⟨c.wasted, h⟩
  | tail _ hturn ih =>
      rcases ih with ⟨wasted, hkept⟩
      have hsound := sound_of_kept hkept
      rcases leads_of_turn hsound.formed hsound.nodup hidle hturn with ⟨wasted', hleads⟩
      exact ⟨wasted', hkept.trans hleads⟩

/-- For one, with room for no entry the entry of the single project is evicted by the task that
has stored it. -/
theorem counters_add_up_lone : ∃ c : Ledger (List Document),
    c.Kept {echo} { CacheSettings.default with highWaterMark := 0 } ∧
      c.tables.counters = ⟨0, 1, 1, 1⟩ ∧ c.tables.entries.size = 0 ∧ c.wasted = [] := by
  let settings : CacheSettings := { CacheSettings.default with highWaterMark := 0 }
  have hb : echo ∈ ({echo} : Set (Backend (List Document))) := Set.mem_singleton echo
  rcases World.leads_lone_entry ∅ settings with
    ⟨w₁, h₁, hentries₁, _, hcounters₁, ⟨t, ht₁, hstage⟩, hothers₁⟩
  have horderly₁ := World.orderly_of_attained h₁
  rcases World.leads_stage hb ht₁ (.announcing (.ok World.loneEntry.artifact))
      (w₁.machine.updateTables fun tables => tables.dropFlight t.slot) rfl
      (horderly₁.spares_dropFlight ht₁ (by rw [hstage]; rfl)) (Machine.retains_of_entries_eq rfl)
      (by simp only [Task.step, ht₁, hstage, Option.bind_eq_bind, Option.bind_some]) with
    ⟨w₂, h₂, _, htables₂, ht₂, hothers₂⟩
  rcases World.leads_stage hb ht₂ (.announced (.ok World.loneEntry.artifact)) w₂.machine rfl
      (Machine.spares_of_flights_eq rfl) (Machine.retains_of_entries_eq rfl)
      (by simp only [Task.step, ht₂, Option.bind_eq_bind, Option.bind_some]) with
    ⟨w₃, h₃, _, htables₃, ht₃, hothers₃⟩
  have hrun : World.Leads {echo} ∅ (.start settings) w₃ := (h₁.trans h₂.leads).trans h₃.leads
  have hcounters : w₃.machine.tables.counters = ⟨0, 1, 1, 0⟩ := by
    rw [htables₃, htables₂]
    exact hcounters₁
  have hentries : w₃.machine.tables.entries.size = 1 := by
    rw [htables₃, htables₂]
    change w₁.machine.tables.entries.size = 1
    rw [hentries₁]
    rfl
  have hkeeps := World.keeps_of_leads hrun
  have hnodup : w₃.machine.tables.entries.keys.Nodup := hkeeps.right List.nodup_nil
  have hmark : w₃.machine.tables.settings.highWaterMark = 0 :=
    congrArg CacheSettings.highWaterMark hkeeps.left
  -- The sweep takes out the one entry that there is.
  have hevicts : Tables.Evicts _ _ _ w₃.machine.tables.sweepCapacity.2 :=
    (Tables.notes_surplus hnodup).sweep hnodup
  have hsize := hevicts.size
  have hswept := Tables.size_sweepCapacity hnodup
  have hempty : w₃.machine.tables.sweepCapacity.2.entries.size = 0 := by omega
  have hcounted : w₃.machine.tables.sweepCapacity.2.counters = ⟨0, 1, 1, 1⟩ := by
    have hone : (w₃.machine.tables.sweep w₃.machine.tables.surplus).1 = 1 := by omega
    rw [hevicts.counters, hcounters, hone]
  have hstart : (start settings : Ledger (List Document)).Kept {echo} settings := .refl
  rcases hstart.leads rfl hrun with ⟨wasted, hkept⟩
  have hkept' := hkept.trans (leads_swept {echo} (c := ⟨w₃, [], wasted, []⟩) ht₃ rfl
    fun _ hsweep => absurd hsweep List.not_mem_nil)
  refine ⟨_, hkept', hcounted, hempty, ?_⟩
  have hsum := (counters_add_up hkept').right.right rfl ?_ rfl
  · change w₃.machine.tables.sweepCapacity.2.entries.size +
      w₃.machine.tables.sweepCapacity.2.counters.evictions + wasted.length =
      w₃.machine.tables.sweepCapacity.2.counters.compiles at hsum
    rw [hempty, hcounted] at hsum
    have hone : 0 + 1 + wasted.length = 1 := hsum
    have hnone : wasted.length = 0 := by omega
    exact List.length_eq_zero_iff.mp hnone
  · intro k t' ht'
    rcases Machine.get?_of_setStage (m := w₃.machine.updateTables _) ht₃ ht' with
      ⟨_, rfl⟩ | ⟨hk, ht'⟩
    · rfl
    · have hnone : w₃.machine.tasks.get? k = none := by
        rw [hothers₃ k hk, hothers₂ k hk, hothers₁ k hk]
      have habsurd : none = some t' := hnone.symm.trans ht'
      cases habsurd

end Ledger
end Cache
end Ripple
