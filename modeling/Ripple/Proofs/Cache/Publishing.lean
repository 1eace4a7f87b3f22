import Ripple.Proofs.Cache.Runs

/-!
# Publishing and invalidation

An invalidation takes out flights, then entries, then listings, and others may come in
between. A task publishes only while its flight is in its slot. So what is stored
after an invalidation is through comes from a task that has taken off after the
flights were removed, and nothing is ever overwritten by an earlier task.
-/

namespace Ripple
namespace Cache

variable {π : Type}

/-!
# Invalidations
-/

/-- The slots that one round of an invalidation is about. -/
inductive Scope where
  | only (slot : Slot)
  | session (s : SessionId)

namespace Scope

def Covers : Scope → Slot → Prop
  | .only slot, other => other = slot
  | .session s, other => other.session = s

def dropFlights : Scope → Tables π → Tables π
  | .only slot, t => t.dropFlight slot
  | .session s, t => t.dropSessionFlights s

def dropEntries : Scope → Tables π → Tables π
  | .only slot, t => t.dropEntry slot
  | .session s, t => t.dropSessionEntries s

def dropListings : Scope → Tables π → Tables π
  | .only slot, t => t.dropListings slot
  | .session s, t => t.dropSessionListings s

/-- A round with nothing in between. -/
def invalidate (sc : Scope) (t : Tables π) : Tables π :=
  sc.dropListings (sc.dropEntries (sc.dropFlights t))

theorem within_dropFlights (sc : Scope) (t : Tables π) : t.Within (sc.dropFlights t) := by
  cases sc with
  | only slot => exact Tables.within_dropFlight t slot
  | session s => exact Tables.within_dropSessionFlights t s

theorem within_dropEntries (sc : Scope) (t : Tables π) : t.Within (sc.dropEntries t) := by
  cases sc with
  | only slot => exact Tables.within_dropEntry t slot
  | session s => exact Tables.within_dropSessionEntries t s

theorem within_dropListings (sc : Scope) (t : Tables π) : t.Within (sc.dropListings t) := by
  cases sc with
  | only slot => exact Tables.within_dropListings t slot
  | session s => exact Tables.within_dropSessionListings t s

theorem get?_dropFlights {sc : Scope} {slot : Slot} (h : sc.Covers slot) (t : Tables π) :
    (sc.dropFlights t).flights.get? slot = none := by
  cases sc with
  | only other =>
      cases h
      exact Table.get?_erase_self ..
  | session s =>
      have hsession : slot.session = s := h
      have hfilter := Table.get?_filter_keys t.flights (fun slot => decide (slot.session ≠ s)) slot
      exact hfilter.trans (if_neg (by simpa using hsession))

theorem stored?_dropEntries {sc : Scope} {slot : Slot} (h : sc.Covers slot) (t : Tables π) :
    (sc.dropEntries t).stored? slot = none := by
  have hnone : (sc.dropEntries t).entries.get? slot = none := by
    cases sc with
    | only other =>
        cases h
        exact Table.get?_erase_self ..
    | session s =>
        have hsession : slot.session = s := h
        have hfilter :=
          Table.get?_filter_keys t.entries (fun slot => decide (slot.session ≠ s)) slot
        exact hfilter.trans (if_neg (by simpa using hsession))
  rw [Tables.stored?, hnone]
  rfl

end Scope

/-- The rounds of an invalidation, one after another. -/
def Upkeep.scopes? : Upkeep → Option (List Scope)
  | .invalidate session project => some [.only ⟨session, project⟩]
  | .invalidateDownstream session g project =>
      some ((Tables.affectedBy g project).map fun id => .only ⟨session, id⟩)
  | .invalidateSession session => some [.session session]
  | _ => none

/-- An invalidation is its rounds. -/
theorem Upkeep.apply_eq_rounds {u : Upkeep} {scopes : List Scope} (h : u.scopes? = some scopes)
    (t : Tables π) : u.apply t = scopes.foldl (fun t sc => sc.invalidate t) t := by
  cases u with
  | invalidate session project =>
      cases h
      rfl
  | invalidateDownstream session g project =>
      cases h
      rw [List.foldl_map]
      rfl
  | invalidateSession session =>
      cases h
      rfl
  | _ => cases h

/-- What a round has removed so far. The mark is the ticket that was next when the
flights were removed. -/
inductive Removed where
  | nothing
  | flights (mark : Nat)
  | entries (mark : Nat)

/-- An invalidation under way, with the round at hand first. -/
structure Invalidation where
  scopes : List Scope
  removed : Removed

/-!
# Storing
-/

def TaskStage.isStoring : TaskStage π → Bool
  | .storing _ => true
  | _ => false

theorem TaskStage.isStoring_iff {s : TaskStage π} : s.isStoring ↔ ∃ a, s = .storing a := by
  cases s <;> simp [isStoring]

/-- A task that is about to store its artifact does nothing else. -/
theorem Task.eq_of_storing {b : Backend π} {gateOpen : Bool} {k : Nat} {t : Task π}
    {m m' : Machine π} {a : Held (Artifact π)} (hstage : t.stage = .storing a)
    (hmove : t.Moves b gateOpen k m m') :
    m' = (m.updateTables fun tables => tables.store t.slot t.fingerprint a).setStage k
      (.clearing (.ok a)) := by
  cases hmove with
  | stored hstage' =>
      rw [hstage] at hstage'
      cases hstage'
      rfl
  | _ => simp_all

/-- Nobody else does it for the task. -/
theorem Machine.Turns.of_storing {backends : Set (Backend π)} {allowed : Set Upkeep}
    {m m' : Machine π} (hturn : m.Turns backends allowed m') (h : m.Formed) {k : Nat}
    {t : Task π} {a : Held (Artifact π)} (ht : m.tasks.get? k = some t)
    (hstage : t.stage = .storing a) :
    m'.tasks.get? k = some t ∨
      m' = (m.updateTables fun tables => tables.store t.slot t.fingerprint a).setStage k
        (.clearing (.ok a)) := by
  cases hturn with
  | @task b gateOpen ticket t' _ hb ht' hmove =>
      by_cases hk : k = ticket
      · rw [← hk, ht] at ht'
        cases ht'
        exact .inr (hk ▸ Task.eq_of_storing hstage hmove)
      · exact .inl (Task.get?_of_moves h hmove hk ht)
  | request hb hmove => exact .inl ((Request.formed_of_moves h hmove).right ht)
  | upkeep hu => exact .inl ht
  | aside htasks hentries hflights hticket => exact .inl (htasks ▸ ht)

/-!
# Chronicles
-/

/-- The world with what has been published and invalidated. -/
structure Chronicle (π : Type) where
  world : World π
  /-- The slots and tickets of the artifacts that have been stored, in order. -/
  published : List (Slot × Nat)
  underway : List Invalidation
  /-- The rounds that are through, each with its mark. -/
  completed : List (Scope × Nat)

namespace Chronicle

abbrev machine (c : Chronicle π) : Machine π := c.world.machine

def updateTables (c : Chronicle π) (f : Tables π → Tables π) : Chronicle π :=
  { c with world := { c.world with schedule := c.world.schedule.updateTables f } }

def start (settings : CacheSettings) : Chronicle π :=
  ⟨.start settings, [], [], []⟩

/-- The tickets of the successive publishes to a slot. -/
def tickets (c : Chronicle π) (slot : Slot) : List Nat :=
  (c.published.filter fun p => p.1 = slot).map Prod.snd

inductive Step (backends : Set (Backend π)) (c : Chronicle π) : Chronicle π → Prop where
  /-- A turn in which nothing is stored. -/
  | turn {w : World π} (hturn : c.world.Turn backends sweeps w)
      (hstoring : ∀ {k t}, c.machine.tasks.get? k = some t → t.stage.isStoring →
        w.machine.tasks.get? k = some t) : Step backends c { c with world := w }
  /-- A turn in which a task stores its artifact. -/
  | publishes {w : World π} {k : Nat} {t t' : Task π} (hturn : c.world.Turn backends sweeps w)
      (ht : c.machine.tasks.get? k = some t) (hstoring : t.stage.isStoring)
      (ht' : w.machine.tasks.get? k = some t') (hstored : ¬ t'.stage.isStoring) :
      Step backends c { c with world := w, published := c.published ++ [(t.slot, k)] }
  | begins {u : Upkeep} {scopes : List Scope} (hscopes : u.scopes? = some scopes) :
      Step backends c { c with underway := c.underway ++ [⟨scopes, .nothing⟩] }
  /-- The flights of a round are removed. -/
  | grounds {before after : List Invalidation} {sc : Scope} {rest : List Scope}
      (hunderway : c.underway = before ++ ⟨sc :: rest, .nothing⟩ :: after)
      (hspares : c.machine.Spares (c.machine.updateTables sc.dropFlights)) :
      Step backends c
        { c.updateTables sc.dropFlights with
          underway := before ++ ⟨sc :: rest, .flights c.machine.tables.nextTicket⟩ :: after }
  /-- The entries are. -/
  | empties {before after : List Invalidation} {sc : Scope} {rest : List Scope} {mark : Nat}
      (hunderway : c.underway = before ++ ⟨sc :: rest, .flights mark⟩ :: after) :
      Step backends c
        { c.updateTables sc.dropEntries with
          underway := before ++ ⟨sc :: rest, .entries mark⟩ :: after }
  /-- The listings are, and the next round can begin. -/
  | finishes {before after : List Invalidation} {sc : Scope} {rest : List Scope} {mark : Nat}
      (hunderway : c.underway = before ++ ⟨sc :: rest, .entries mark⟩ :: after) :
      Step backends c
        { c.updateTables sc.dropListings with
          underway := before ++ ⟨rest, .nothing⟩ :: after
          completed := (sc, mark) :: c.completed }

/-- What can be recorded of a fresh cache. -/
def Recorded (backends : Set (Backend π)) (settings : CacheSettings) (c : Chronicle π) : Prop :=
  Relation.ReflTransGen (Step backends) (start settings) c

/-!
# What a chronicle says about the cache
-/

/-- The flights of the round have been removed. -/
def Grounded (c : Chronicle π) (sc : Scope) (mark : Nat) : Prop :=
  (sc, mark) ∈ c.completed ∨ ∃ rest,
    ⟨sc :: rest, .flights mark⟩ ∈ c.underway ∨ ⟨sc :: rest, .entries mark⟩ ∈ c.underway

/-- The entries have been as well. -/
def Emptied (c : Chronicle π) (sc : Scope) (mark : Nat) : Prop :=
  (sc, mark) ∈ c.completed ∨ ∃ rest, ⟨sc :: rest, .entries mark⟩ ∈ c.underway

theorem Emptied.grounded {c : Chronicle π} {sc : Scope} {mark : Nat} (h : c.Emptied sc mark) :
    c.Grounded sc mark := by
  rcases h with hcompleted | ⟨rest, hunderway⟩
  · exact .inl hcompleted
  · exact .inr ⟨rest, .inr hunderway⟩

structure Faithful (c : Chronicle π) : Prop where
  orderly : c.machine.Orderly
  /-- Whoever has published has nothing more to store. -/
  publishers : ∀ {slot k}, k ∈ c.tickets slot → ∃ t o, c.machine.tasks.get? k = some t ∧
    t.slot = slot ∧ t.stage.settled? = some o
  increasing : ∀ slot, (c.tickets slot).Pairwise (· < ·)
  last : ∀ {slot f a}, c.machine.tables.stored? slot = some (f, a) →
    ∃ k t, (c.tickets slot).getLast? = some k ∧ c.machine.tasks.get? k = some t ∧
      t.slot = slot ∧ t.fingerprint = f ∧ t.stage.settled? = some (.ok a)
  marks : ∀ {sc mark}, c.Grounded sc mark → mark ≤ c.machine.tables.nextTicket
  /-- The flights that have been removed do not come back. -/
  grounded : ∀ {sc mark slot flight}, c.Grounded sc mark → sc.Covers slot →
    c.machine.tables.flights.get? slot = some flight → mark ≤ flight.ticket
  /-- Nor do the entries. -/
  emptied : ∀ {sc mark slot x k}, c.Emptied sc mark → sc.Covers slot →
    c.machine.tables.stored? slot = some x → (c.tickets slot).getLast? = some k → mark ≤ k

theorem faithful_start (settings : CacheSettings) : (start settings : Chronicle π).Faithful where
  orderly := Machine.orderly_new settings
  publishers := nofun
  increasing _ := List.Pairwise.nil
  last := nofun
  marks := by
    rintro sc mark (hcompleted | ⟨rest, hunderway | hunderway⟩)
    · cases hcompleted
    · cases hunderway
    · cases hunderway
  grounded := nofun
  emptied := nofun

variable {c : Chronicle π}

theorem Faithful.publishers_of_ages (h : c.Faithful) {m : Machine π} (hages : c.machine.Ages m)
    {slot : Slot} {k : Nat} (hk : k ∈ c.tickets slot) :
    ∃ t o, m.tasks.get? k = some t ∧ t.slot = slot ∧ t.stage.settled? = some o := by
  rcases h.publishers hk with ⟨t, o, ht, hslot, ho⟩
  rcases hages ht with ⟨t', ht', htages⟩
  exact ⟨t', o, ht', htages.slot.trans hslot, htages.settled ho⟩

theorem Faithful.last_of_ages (h : c.Faithful) {m : Machine π} (hages : c.machine.Ages m)
    {slot : Slot} {f : Fingerprint} {a : Held (Artifact π)}
    (hx : c.machine.tables.stored? slot = some (f, a)) :
    ∃ k t, (c.tickets slot).getLast? = some k ∧ m.tasks.get? k = some t ∧
      t.slot = slot ∧ t.fingerprint = f ∧ t.stage.settled? = some (.ok a) := by
  rcases h.last hx with ⟨k, t, hk, ht, hslot, hf, ho⟩
  rcases hages ht with ⟨t', ht', htages⟩
  exact ⟨k, t', hk, ht', htages.slot.trans hslot, htages.fingerprint.trans hf,
    htages.settled ho⟩

/-- Tasks grow older, flights are removed or new, and entries are removed. -/
theorem Faithful.world (h : c.Faithful) {w : World π} (horderly : w.machine.Orderly)
    (hages : c.machine.Ages w.machine)
    (hstored : ∀ {slot x}, w.machine.tables.stored? slot = some x →
      c.machine.tables.stored? slot = some x)
    (hflights : ∀ {slot flight}, w.machine.tables.flights.get? slot = some flight →
      c.machine.tables.flights.get? slot = some flight ∨
        flight.ticket = c.machine.tables.nextTicket)
    (hticket : c.machine.tables.nextTicket ≤ w.machine.tables.nextTicket) :
    ({ c with world := w } : Chronicle π).Faithful where
  orderly := horderly
  publishers hk := h.publishers_of_ages hages hk
  increasing := h.increasing
  last hx := h.last_of_ages hages (hstored hx)
  marks hgrounded := Nat.le_trans (h.marks hgrounded) hticket
  grounded := by
    intro sc mark slot flight hgrounded hcovers hflight
    rcases hflights hflight with hbefore | hnew
    · exact h.grounded hgrounded hcovers hbefore
    · rw [hnew]
      exact h.marks hgrounded
  emptied hemptied hcovers hx := h.emptied hemptied hcovers (hstored hx)

/-- A turn in which nothing is stored. -/
theorem Faithful.turn (h : c.Faithful) {backends : Set (Backend π)} {w : World π}
    (hturn : c.world.Turn backends sweeps w)
    (hstoring : ∀ {k t}, c.machine.tasks.get? k = some t → t.stage.isStoring →
      w.machine.tasks.get? k = some t) : ({ c with world := w } : Chronicle π).Faithful := by
  have horderly := h.orderly.turns hturn.machine.left hturn.machine.right
  cases Machine.effect_of_turns h.orderly.formed hturn.machine.left with
  | steady hages hstored hflights hticket =>
      exact h.world horderly hages hstored (fun hflight => .inl (hflights ▸ hflight))
        (Nat.le_of_eq hticket.symm)
  | @tookOff t hnew hfresh hages hlook hother hstored hflights hticket =>
      refine h.world horderly hages (fun hx => hstored ▸ hx) ?_ ?_
      · intro slot flight hflight
        rw [hflights, Table.get?_insert] at hflight
        by_cases hslot : slot = t.slot
        · rw [if_pos hslot] at hflight
          cases hflight
          exact .inr rfl
        · rw [if_neg hslot] at hflight
          exact .inl hflight
      · rw [hticket]
        exact Nat.le_succ _
  | stored ht hstage hages hnew htables =>
      have hstays := hstoring ht (by rw [hstage]; rfl)
      rw [hnew] at hstays
      have hsame := congrArg Task.stage (Option.some.inj hstays)
      rw [hstage] at hsame
      cases hsame
  | @cleared k t o ht hstage hages hnew htables =>
      refine h.world horderly hages ?_ ?_ ?_
      · intro slot x hx
        rw [htables] at hx
        exact hx
      · intro slot flight hflight
        rw [htables] at hflight
        exact .inl (Tables.get?_of_get?_erase hflight)
      · rw [htables]
        exact Nat.le_refl _

theorem tickets_publish (c : Chronicle π) (w : World π) (slot slot' : Slot) (k : Nat) :
    ({ c with world := w, published := c.published ++ [(slot, k)] } : Chronicle π).tickets slot' =
      if slot' = slot then c.tickets slot' ++ [k] else c.tickets slot' := by
  simp only [tickets, List.filter_append, List.map_append]
  by_cases hslot : slot' = slot
  · rw [if_pos hslot]
    simp [hslot]
  · rw [if_neg hslot]
    simp [Ne.symm hslot]

section Storing

variable {k : Nat} {t : Task π} {a : Held (Artifact π)}

/-- All that have published to the slot are earlier than the task whose flight is
there. -/
theorem Faithful.lt_of_storing (h : c.Faithful) (ht : c.machine.tasks.get? k = some t)
    (hstage : t.stage = .storing a) {k' : Nat} (hk' : k' ∈ c.tickets t.slot) : k' < k := by
  rcases h.publishers hk' with ⟨t', o, ht', hslot, ho⟩
  have hflight := h.orderly.holders ht (by rw [hstage]; rfl)
  refine Nat.lt_of_le_of_ne (h.orderly.latest hflight ht' hslot) fun heq => ?_
  rw [heq, ht] at ht'
  cases ht'
  rw [hstage] at ho
  cases ho

theorem Faithful.increasing_of_storing (h : c.Faithful) (ht : c.machine.tasks.get? k = some t)
    (hstage : t.stage = .storing a) (w : World π) (slot : Slot) :
    (({ c with world := w, published := c.published ++ [(t.slot, k)] } : Chronicle π).tickets
      slot).Pairwise (· < ·) := by
  rw [tickets_publish]
  by_cases hslot : slot = t.slot
  · rw [if_pos hslot, List.pairwise_append]
    refine ⟨h.increasing slot, List.pairwise_singleton _ _, ?_⟩
    intro k' hk' k'' hk''
    rw [List.mem_singleton.mp hk'']
    exact h.lt_of_storing ht hstage (hslot ▸ hk')
  · rw [if_neg hslot]
    exact h.increasing slot

/-- A turn in which a task stores its artifact. -/
theorem Faithful.publish (h : c.Faithful) {backends : Set (Backend π)} {w : World π}
    (hturn : c.world.Turn backends sweeps w) (ht : c.machine.tasks.get? k = some t)
    (hstage : t.stage = .storing a)
    (hw : w.machine =
      (c.machine.updateTables fun tables => tables.store t.slot t.fingerprint a).setStage k
        (.clearing (.ok a))) :
    ({ c with world := w, published := c.published ++ [(t.slot, k)] } : Chronicle π).Faithful := by
  have hself : w.machine.tasks.get? k = some { t with stage := .clearing (.ok a) } := by
    rw [hw]
    exact Machine.get?_setStage_self (m := c.machine.updateTables _) ht _
  have hages : c.machine.Ages w.machine := by
    rw [hw]
    exact Machine.ages_setStage (Machine.adds_of_tasks_eq rfl) ht
      (fun _ => by rw [hstage]; rfl) (fun ho => by rw [hstage] at ho; cases ho)
  have hstored (slot : Slot) : w.machine.tables.stored? slot =
      if slot = t.slot then some (t.fingerprint, a) else c.machine.tables.stored? slot := by
    rw [hw]
    exact Tables.stored?_store ..
  have hflights : w.machine.tables.flights = c.machine.tables.flights := by
    rw [hw]
    rfl
  constructor
  · exact h.orderly.turns hturn.machine.left hturn.machine.right
  · intro slot k' hk'
    rw [tickets_publish] at hk'
    by_cases hslot : slot = t.slot
    · rw [if_pos hslot] at hk'
      rcases List.mem_append.mp hk' with hk' | hk'
      · exact h.publishers_of_ages hages hk'
      · rw [List.mem_singleton.mp hk']
        exact ⟨_, _, hself, hslot.symm, rfl⟩
    · rw [if_neg hslot] at hk'
      exact h.publishers_of_ages hages hk'
  · exact h.increasing_of_storing ht hstage w
  · intro slot f a' hx
    have hx' := (hstored slot).symm.trans hx
    rw [tickets_publish]
    by_cases hslot : slot = t.slot
    · rw [if_pos hslot] at hx' ⊢
      cases hx'
      exact ⟨k, _, List.getLast?_concat, hself, hslot.symm, rfl, rfl⟩
    · rw [if_neg hslot] at hx' ⊢
      exact h.last_of_ages hages hx'
  · intro sc mark hgrounded
    have hticket : w.machine.tables.nextTicket = c.machine.tables.nextTicket := by
      rw [hw]
      rfl
    exact Nat.le_trans (h.marks hgrounded) (Nat.le_of_eq hticket.symm)
  · intro sc mark slot flight hgrounded hcovers hflight
    exact h.grounded hgrounded hcovers (hflights ▸ hflight)
  · intro sc mark slot x k' hemptied hcovers hx hk'
    have hx' := (hstored slot).symm.trans hx
    rw [tickets_publish] at hk'
    by_cases hslot : slot = t.slot
    · -- What the slot holds now comes from a flight that no round has removed.
      rw [if_pos hslot, List.getLast?_concat] at hk'
      cases hk'
      have hflight := h.orderly.holders ht (by rw [hstage]; rfl)
      exact h.grounded hemptied.grounded hcovers (hslot ▸ hflight)
    · rw [if_neg hslot] at hx' hk'
      exact h.emptied hemptied hcovers hx' hk'

end Storing

/-!
# Removals
-/

/-- A single removal of a round. -/
theorem Faithful.remove (h : c.Faithful) {f : Tables π → Tables π}
    (hwithin : c.machine.tables.Within (f c.machine.tables))
    (hspares : c.machine.Spares (c.machine.updateTables f)) : (c.updateTables f).Faithful := by
  refine h.world (h.orderly.within rfl hwithin hspares) ?_ hwithin.stored?
    (fun hflight => .inl (hwithin.flights hflight)) (Nat.le_of_eq hwithin.nextTicket.symm)
  exact (Machine.adds_of_tasks_eq rfl).ages

/-- The marks may be replaced by others that the tables bear out. -/
theorem Faithful.record (h : c.Faithful) {underway : List Invalidation}
    {completed : List (Scope × Nat)} {c' : Chronicle π}
    (hc' : c' = { c with underway := underway, completed := completed })
    (hmarks : ∀ {sc mark}, c'.Grounded sc mark → c.Grounded sc mark ∨
      (mark ≤ c.machine.tables.nextTicket ∧
        ∀ {slot}, sc.Covers slot → c.machine.tables.flights.get? slot = none))
    (hemptied : ∀ {sc mark}, c'.Emptied sc mark → c.Emptied sc mark ∨
      ∀ {slot}, sc.Covers slot → c.machine.tables.stored? slot = none) : c'.Faithful := by
  subst hc'
  refine ⟨h.orderly, h.publishers, h.increasing, h.last, ?_, ?_, ?_⟩
  · intro sc mark hgrounded
    rcases hmarks hgrounded with hbefore | ⟨hmark, _⟩
    · exact h.marks hbefore
    · exact hmark
  · intro sc mark slot flight hgrounded hcovers hflight
    rcases hmarks hgrounded with hbefore | ⟨_, hnone⟩
    · exact h.grounded hbefore hcovers hflight
    · exact nomatch (hnone hcovers).symm.trans hflight
  · intro sc mark slot x k hempty hcovers hx hk
    rcases hemptied hempty with hbefore | hnone
    · exact h.emptied hbefore hcovers hx hk
    · exact nomatch (hnone hcovers).symm.trans hx

theorem mem_of_replaced {before after : List Invalidation} {old new inv : Invalidation}
    (h : inv ∈ before ++ new :: after) : inv = new ∨ inv ∈ before ++ old :: after := by
  rcases List.mem_append.mp h with hbefore | hrest
  · exact .inr (List.mem_append_left _ hbefore)
  · rcases List.mem_cons.mp hrest with hnew | hafter
    · exact .inl hnew
    · exact .inr (List.mem_append_right _ (List.mem_cons_of_mem _ hafter))

theorem Faithful.begin (h : c.Faithful) (scopes : List Scope) :
    ({ c with underway := c.underway ++ [⟨scopes, .nothing⟩] } : Chronicle π).Faithful := by
  have hold {inv : Invalidation} (hinv : inv ∈ c.underway ++ [⟨scopes, .nothing⟩])
      (hremoved : inv.removed ≠ .nothing) : inv ∈ c.underway := by
    rcases List.mem_append.mp hinv with hinv | hinv
    · exact hinv
    · rw [List.mem_singleton.mp hinv] at hremoved
      exact absurd rfl hremoved
  refine h.record rfl ?_ ?_
  · rintro sc mark (hcompleted | ⟨rest, hunderway | hunderway⟩)
    · exact .inl (.inl hcompleted)
    · exact .inl (.inr ⟨rest, .inl (hold hunderway nofun)⟩)
    · exact .inl (.inr ⟨rest, .inr (hold hunderway nofun)⟩)
  · rintro sc mark (hcompleted | ⟨rest, hunderway⟩)
    · exact .inl (.inl hcompleted)
    · exact .inl (.inr ⟨rest, hold hunderway nofun⟩)

theorem Faithful.ground (h : c.Faithful) {before after : List Invalidation} {sc : Scope}
    {rest : List Scope} (hunderway : c.underway = before ++ ⟨sc :: rest, .nothing⟩ :: after)
    (hspares : c.machine.Spares (c.machine.updateTables sc.dropFlights)) :
    ({ c.updateTables sc.dropFlights with
      underway := before ++ ⟨sc :: rest, .flights c.machine.tables.nextTicket⟩ :: after } :
      Chronicle π).Faithful := by
  have hwithin := sc.within_dropFlights c.machine.tables
  refine (h.remove hwithin hspares).record rfl ?_ ?_
  · rintro sc' mark (hcompleted | ⟨rest', hinv | hinv⟩)
    · exact .inl (.inl hcompleted)
    · rcases mem_of_replaced hinv with hnew | hold
      · cases hnew
        right
        constructor
        · exact Nat.le_of_eq hwithin.nextTicket.symm
        · intro slot hcovers
          exact Scope.get?_dropFlights hcovers _
      · exact .inl (.inr ⟨rest', .inl (hunderway ▸ hold)⟩)
    · rcases mem_of_replaced hinv with hnew | hold
      · cases hnew
      · exact .inl (.inr ⟨rest', .inr (hunderway ▸ hold)⟩)
  · rintro sc' mark (hcompleted | ⟨rest', hinv⟩)
    · exact .inl (.inl hcompleted)
    · rcases mem_of_replaced hinv with hnew | hold
      · cases hnew
      · exact .inl (.inr ⟨rest', hunderway ▸ hold⟩)

theorem Faithful.empty (h : c.Faithful) {before after : List Invalidation} {sc : Scope}
    {rest : List Scope} {mark : Nat}
    (hunderway : c.underway = before ++ ⟨sc :: rest, .flights mark⟩ :: after) :
    ({ c.updateTables sc.dropEntries with
      underway := before ++ ⟨sc :: rest, .entries mark⟩ :: after } : Chronicle π).Faithful := by
  have hspares : c.machine.Spares (c.machine.updateTables sc.dropEntries) := by
    apply Machine.spares_of_flights_eq
    cases sc <;> rfl
  have hmem : ⟨sc :: rest, .flights mark⟩ ∈ c.underway := by
    rw [hunderway]
    exact List.mem_append_right _ List.mem_cons_self
  refine (h.remove (sc.within_dropEntries _) hspares).record rfl ?_ ?_
  · rintro sc' mark' (hcompleted | ⟨rest', hinv | hinv⟩)
    · exact .inl (.inl hcompleted)
    · rcases mem_of_replaced hinv with hnew | hold
      · cases hnew
      · exact .inl (.inr ⟨rest', .inl (hunderway ▸ hold)⟩)
    · rcases mem_of_replaced hinv with hnew | hold
      · cases hnew
        exact .inl (.inr ⟨rest, .inl hmem⟩)
      · exact .inl (.inr ⟨rest', .inr (hunderway ▸ hold)⟩)
  · rintro sc' mark' (hcompleted | ⟨rest', hinv⟩)
    · exact .inl (.inl hcompleted)
    · rcases mem_of_replaced hinv with hnew | hold
      · cases hnew
        right
        intro slot hcovers
        exact Scope.stored?_dropEntries hcovers _
      · exact .inl (.inr ⟨rest', hunderway ▸ hold⟩)

theorem Faithful.finish (h : c.Faithful) {before after : List Invalidation} {sc : Scope}
    {rest : List Scope} {mark : Nat}
    (hunderway : c.underway = before ++ ⟨sc :: rest, .entries mark⟩ :: after) :
    ({ c.updateTables sc.dropListings with
      underway := before ++ ⟨rest, .nothing⟩ :: after
      completed := (sc, mark) :: c.completed } : Chronicle π).Faithful := by
  have hspares : c.machine.Spares (c.machine.updateTables sc.dropListings) := by
    apply Machine.spares_of_flights_eq
    cases sc <;> rfl
  have hmem : ⟨sc :: rest, .entries mark⟩ ∈ c.underway := by
    rw [hunderway]
    exact List.mem_append_right _ List.mem_cons_self
  refine (h.remove (sc.within_dropListings _) hspares).record rfl ?_ ?_
  · rintro sc' mark' (hcompleted | ⟨rest', hinv | hinv⟩)
    · rcases List.mem_cons.mp hcompleted with hnew | hold
      · cases hnew
        exact .inl (.inr ⟨rest, .inr hmem⟩)
      · exact .inl (.inl hold)
    · rcases mem_of_replaced hinv with hnew | hold
      · cases hnew
      · exact .inl (.inr ⟨rest', .inl (hunderway ▸ hold)⟩)
    · rcases mem_of_replaced hinv with hnew | hold
      · cases hnew
      · exact .inl (.inr ⟨rest', .inr (hunderway ▸ hold)⟩)
  · rintro sc' mark' (hcompleted | ⟨rest', hinv⟩)
    · rcases List.mem_cons.mp hcompleted with hnew | hold
      · cases hnew
        exact .inl (.inr ⟨rest, hmem⟩)
      · exact .inl (.inl hold)
    · rcases mem_of_replaced hinv with hnew | hold
      · cases hnew
      · exact .inl (.inr ⟨rest', hunderway ▸ hold⟩)

theorem Faithful.step (h : c.Faithful) {backends : Set (Backend π)} {c' : Chronicle π}
    (hstep : c.Step backends c') : c'.Faithful := by
  cases hstep with
  | turn hturn hstoring => exact h.turn hturn hstoring
  | publishes hturn ht hstoring ht' hstored =>
      rcases TaskStage.isStoring_iff.mp hstoring with ⟨a, hstage⟩
      rcases hturn.machine.left.of_storing h.orderly.formed ht hstage with hstays | hw
      · rw [ht'] at hstays
        cases hstays
        exact absurd hstoring hstored
      · exact h.publish hturn ht hstage hw
  | begins hscopes => exact h.begin _
  | grounds hunderway hspares => exact h.ground hunderway hspares
  | empties hunderway => exact h.empty hunderway
  | finishes hunderway => exact h.finish hunderway

theorem faithful_of_recorded {backends : Set (Backend π)} {settings : CacheSettings}
    (h : c.Recorded backends settings) : c.Faithful := by
  induction h with
  | refl => exact faithful_start settings
  | tail _ hstep ih => exact ih.step hstep

/-- Every turn can be recorded. -/
theorem exists_step_of_turn (h : c.Faithful) {backends : Set (Backend π)} {w : World π}
    (hturn : c.world.Turn backends sweeps w) : ∃ published,
    c.Step backends { c with world := w, published := published } := by
  by_cases hstays : ∀ {k t}, c.machine.tasks.get? k = some t → t.stage.isStoring →
      w.machine.tasks.get? k = some t
  · exact ⟨c.published, .turn hturn hstays⟩
  · push Not at hstays
    rcases hstays with ⟨k, t, ht, hstoring, hgone⟩
    rcases TaskStage.isStoring_iff.mp hstoring with ⟨a, hstage⟩
    rcases hturn.machine.left.of_storing h.orderly.formed ht hstage with hsame | hw
    · exact absurd hsame hgone
    · have hstored : w.machine.tasks.get? k = some { t with stage := .clearing (.ok a) } := by
        rw [hw]
        exact Machine.get?_setStage_self (m := c.machine.updateTables _) ht _
      exact ⟨_, .publishes hturn ht hstoring hstored Bool.false_ne_true⟩

theorem Recorded.leads {backends : Set (Backend π)} {settings : CacheSettings}
    (h : c.Recorded backends settings) {w : World π} (hleads : c.world.Leads backends sweeps w) :
    ∃ published, Recorded backends settings { c with world := w, published := published } := by
  induction hleads with
  | refl => exact ⟨c.published, h⟩
  | tail _ hturn ih =>
      rcases ih with ⟨published, hrecorded⟩
      rcases exists_step_of_turn (faithful_of_recorded hrecorded) hturn with ⟨published', hstep⟩
      exact ⟨published', hrecorded.tail hstep⟩

/-- The tickets of the publishes to a slot increase, and what is stored there comes from
the last of them. Its task has taken off after the flights were removed by every
invalidation that is through with the slot. -/
theorem published_in_order {backends : Set (Backend π)} {settings : CacheSettings}
    (h : c.Recorded backends settings) (slot : Slot) :
    (c.tickets slot).Pairwise (· < ·) ∧
      ∀ e, c.machine.tables.entries.get? slot = some e →
        ∃ k t, (c.tickets slot).getLast? = some k ∧ c.machine.tasks.get? k = some t ∧
          t.slot = slot ∧ t.fingerprint = e.fingerprint ∧
          t.stage.settled? = some (.ok e.artifact) ∧
          ∀ sc mark, (sc, mark) ∈ c.completed → sc.Covers slot → mark ≤ k := by
  have hfaithful := faithful_of_recorded h
  constructor
  · exact hfaithful.increasing slot
  · intro e he
    have hx : c.machine.tables.stored? slot = some (e.fingerprint, e.artifact) := by
      rw [Tables.stored?, he]
      rfl
    rcases hfaithful.last hx with ⟨k, t, hk, ht, hslot, hf, ho⟩
    refine ⟨k, t, hk, ht, hslot, hf, ho, ?_⟩
    intro sc mark hcompleted hcovers
    exact hfaithful.emptied (.inl hcompleted) hcovers hx hk

/-- For one, a compile that has taken off after an invalidation. -/
theorem published_in_order_lone : ∃ (c : Chronicle (List Document)) (k : Nat),
    (.only ⟨⟨"s"⟩, ⟨"a"⟩⟩, 1) ∈ c.completed ∧
      (c.tickets ⟨⟨"s"⟩, ⟨"a"⟩⟩).getLast? = some k ∧ 1 ≤ k := by
  have hb : echo ∈ ({echo} : Set (Backend (List Document))) := Set.mem_singleton echo
  let sc : Scope := .only ⟨⟨"s"⟩, ⟨"a"⟩⟩
  have hfree₀ := Machine.free_new (π := List Document) .default
  rcases World.leads_takeOff (w := .start .default) hb hfree₀ (World.print_lone "old") nofun nofun with
    ⟨w₁, _, h₁, _, hm₁, _, _⟩
  have hfree₁ : w₁.machine.Free := by
    rw [hm₁]
    exact Machine.Free.takeOff hfree₀ _ _
  have hstart : (start .default).Recorded {echo} .default := .refl
  rcases hstart.leads h₁.leads with ⟨published, hrecorded⟩
  -- The flight is removed while its task has not even begun.
  let invalidated : World (List Document) :=
    { w₁ with
      schedule := ((w₁.schedule.updateTables sc.dropFlights).updateTables
        sc.dropEntries).updateTables sc.dropListings }
  have hm₂ : invalidated.machine = ((w₁.machine.updateTables sc.dropFlights).updateTables
    sc.dropEntries).updateTables sc.dropListings := rfl
  have hinvalidated : Recorded {echo} .default
      ⟨invalidated, published, [⟨[], .nothing⟩], [(sc, w₁.machine.tables.nextTicket)]⟩ := by
    have hbegun := hrecorded.tail (.begins (u := .invalidate ⟨"s"⟩ ⟨"a"⟩) rfl)
    have hgrounded := hbegun.tail (.grounds (List.nil_append _).symm hfree₁.spares)
    have hemptied := hgrounded.tail (.empties (List.nil_append _).symm)
    have hfinished := hemptied.tail (.finishes (List.nil_append _).symm)
    exact hfinished
  rcases World.leads_takeOff (w := invalidated) hb hfree₁ (World.print_lone "old")
      (by rw [hm₂, hm₁]; nofun) (by rw [hm₂, hm₁]; nofun) with
    ⟨w₃, _, h₃, _, hm₃, _, _⟩
  have ht₃ : w₃.machine.tasks.get? 1 =
      some ⟨lone "old", ⟨"a"⟩, World.loneFingerprint "old", .fresh⟩ := by
    rw [hm₃, hm₂, hm₁]
    rfl
  rcases World.leads_compiling hb ht₃ rfl rfl (World.effectiveDependencies_lone _ _) with
    ⟨w₄, h₄, _, htables₄, ht₄, _⟩
  have hflight₄ : w₄.machine.tables.flights.get? ⟨⟨"s"⟩, ⟨"a"⟩⟩ =
      some ⟨1, World.loneFingerprint "old"⟩ := by
    rw [htables₄, hm₃, hm₂, hm₁]
    rfl
  have hopen : w₄.schedule.gateOpen = true := by
    have hsame := World.gateOpen_of_leads (h₃.leads.trans (h₄.leads : World.Leads _ sweeps _ _))
    exact hsame.trans (World.gateOpen_of_leads h₁.leads)
  rcases World.leads_stored hb hopen ht₄ rfl rfl hflight₄ with ⟨w₅, h₅, _, htables₅, _, _⟩
  rcases hinvalidated.leads ((h₃.leads.trans h₄.leads).trans h₅.leads) with ⟨published', hrecorded'⟩
  have hentry : ∃ e, w₅.machine.tables.entries.get? ⟨⟨"s"⟩, ⟨"a"⟩⟩ = some e := by
    rw [htables₅]
    exact ⟨_, Table.get?_insert_self ..⟩
  rcases hentry with ⟨e, he⟩
  rcases (published_in_order hrecorded' ⟨⟨"s"⟩, ⟨"a"⟩⟩).right e he with
    ⟨k, _, hk, _, _, _, _, hmarks⟩
  have hmark : w₁.machine.tables.nextTicket = 1 := by
    rw [hm₁]
    rfl
  have hcompleted : (sc, 1) ∈ [(sc, w₁.machine.tables.nextTicket)] := by
    rw [hmark]
    exact List.mem_singleton_self _
  exact ⟨_, k, hcompleted, hk, hmarks _ _ hcompleted rfl⟩

end Chronicle
end Cache
end Ripple
