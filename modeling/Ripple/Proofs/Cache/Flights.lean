import Ripple.Proofs.Cache.Turns

/-!
# Flights and their tasks

Each slot has at most one flight, and it belongs to the last task that has taken off
for the slot. Tasks whose flight has been replaced or removed go on, but they find
the flight of another task when they are about to publish, or none. So an entry
goes back to the last task for its slot and fingerprint.
-/

namespace Ripple
namespace Cache

variable {π : Type}

/-!
# What is stored
-/

namespace Tables

/-- What is stored in a slot, whenever it was used last. -/
def stored? (t : Tables π) (slot : Slot) : Option (Fingerprint × Held (Artifact π)) :=
  (t.entries.get? slot).map fun e => (e.fingerprint, e.artifact)

/-- The tables differ only in what has been counted, listed and used. -/
structure Alike (t t' : Tables π) : Prop where
  stored : t'.stored? = t.stored?
  flights : t'.flights = t.flights
  nextTicket : t'.nextTicket = t.nextTicket

theorem stored?_congr {t t' : Tables π} (h : t'.entries = t.entries) :
    t'.stored? = t.stored? := by
  funext slot
  rw [stored?, stored?, h]

theorem alike_of_same {t t' : Tables π} (hentries : t'.entries = t.entries)
    (hflights : t'.flights = t.flights) (hticket : t'.nextTicket = t.nextTicket) :
    t.Alike t' :=
  ⟨stored?_congr hentries, hflights, hticket⟩

theorem Within.stored? {t t' : Tables π} (h : t.Within t') {slot : Slot}
    {x : Fingerprint × Held (Artifact π)} (hstored : t'.stored? slot = some x) :
    t.stored? slot = some x := by
  rcases Option.map_eq_some_iff.mp hstored with ⟨e', he', rfl⟩
  rcases h.entries he' with ⟨e, he, hf, ha⟩
  rw [Tables.stored?, he, Option.map_some, hf, ha]

theorem stored?_store (t : Tables π) (slot slot' : Slot) (f : Fingerprint)
    (a : Held (Artifact π)) :
    (t.store slot f a).stored? slot' = if slot' = slot then some (f, a) else t.stored? slot' := by
  simp only [stored?, store, Table.get?_insert]
  by_cases h : slot' = slot
  · rw [if_pos h, if_pos h]
    rfl
  · rw [if_neg h, if_neg h]

theorem lookUp_eq_none_iff {t : Tables π} {slot : Slot} {f : Fingerprint} :
    t.lookUp slot f = none ↔ ∀ a, t.stored? slot ≠ some (f, a) := by
  unfold lookUp stored?
  cases t.entries.get? slot with
  | none => simp
  | some e =>
      by_cases h : e.fingerprint = f
      · simp [h]
      · simp [h]

/-- A look-up finds what is stored, and changes nothing but when it was used. -/
theorem alike_of_lookUp {t t' : Tables π} {slot : Slot} {f : Fingerprint}
    {a : Held (Artifact π)} (h : t.lookUp slot f = some (a, t')) :
    t.stored? slot = some (f, a) ∧ t.Alike t' := by
  rcases lookUp_eq_some_iff.mp h with ⟨e, he, rfl, rfl, rfl⟩
  constructor
  · rw [stored?, he]
    rfl
  · refine ⟨?_, rfl, rfl⟩
    funext slot'
    simp only [stored?, Table.get?_insert]
    by_cases hslot : slot' = slot
    · rw [if_pos hslot, hslot, he]
      rfl
    · rw [if_neg hslot]

theorem flights_evictAll (t : Tables π) (candidates : List (Slot × Nat)) :
    (t.evictAll candidates).2.flights = t.flights := by
  induction candidates generalizing t with
  | nil => rfl
  | cons candidate rest ih =>
      simp only [evictAll]
      cases hevict : t.evict candidate.1 candidate.2 with
      | none => exact ih t
      | some t' =>
          unfold evict at hevict
          split at hevict
          · cases hevict
          · split at hevict
            · cases hevict
              exact ih _
            · cases hevict

theorem flights_sweepCapacity (t : Tables π) : t.sweepCapacity.2.flights = t.flights :=
  flights_evictAll t _

end Tables

/-!
# What a request does
-/

/-- A request takes off, or it changes neither tasks nor what is stored or under way. -/
theorem Request.effect_of_moves {environment : String} {r r' : Request π} {m m' : Machine π}
    (hmove : r.Moves environment m (r', m')) :
    (m'.tasks = m.tasks ∧ m.tables.Alike m'.tables) ∨
      ∃ f, r.stage = .joining f ∧ (r', m') = r.takeOff f m ∧
        (∀ a, m.tables.stored? r.slot ≠ some (f, a)) ∧
        ∀ flight, m.tables.flights.get? r.slot = some flight → flight.fingerprint ≠ f := by
  generalize hnext : (r', m') = next at hmove
  cases hmove with
  | found hstage hprint hlook =>
      cases hnext
      exact .inl ⟨rfl, (Tables.alike_of_lookUp hlook).right⟩
  | stored hstage hlook =>
      cases hnext
      exact .inl ⟨rfl, (Tables.alike_of_lookUp hlook).right⟩
  | tookOff hstage hlook hother =>
      exact .inr ⟨_, hstage, rfl, Tables.lookUp_eq_none_iff.mp hlook, hother⟩
  | _ =>
      cases hnext
      exact .inl ⟨rfl, Tables.alike_of_same rfl rfl rfl⟩

/-!
# The invariant
-/

namespace TaskStage

/-- The task has not given its flight up yet, if it still has one. -/
def isRunning : TaskStage π → Bool
  | .announcing _ | .announced _ | .ended _ => false
  | _ => true

/-- The outcome, once the task has nothing more to store. -/
def settled? : TaskStage π → Option (Outcome π)
  | .clearing o | .announcing o | .announced o | .ended o => some o
  | _ => none

theorem settled?_of_outcome? {s : TaskStage π} {o : Outcome π} (h : s.outcome? = some o) :
    s.settled? = some o ∧ ¬ s.isRunning := by
  cases s with
  | announced o' => exact ⟨h, Bool.false_ne_true⟩
  | ended o' => exact ⟨h, Bool.false_ne_true⟩
  | _ => cases h

end TaskStage

namespace Machine

/-- Flights and entries go back to tasks. -/
structure Orderly (m : Machine π) : Prop where
  formed : m.Formed
  /-- A flight is that of a task that has not given it up. -/
  flights : ∀ {slot flight}, m.tables.flights.get? slot = some flight →
    ∃ t, m.tasks.get? flight.ticket = some t ∧ t.slot = slot ∧
      t.fingerprint = flight.fingerprint ∧ t.stage.isRunning
  /-- It is the last task for its slot. -/
  latest : ∀ {slot flight}, m.tables.flights.get? slot = some flight →
    ∀ {k t}, m.tasks.get? k = some t → t.slot = slot → k ≤ flight.ticket
  /-- A task that holds its slot has its flight there. -/
  holders : ∀ {k t}, m.tasks.get? k = some t → t.stage.isHolding →
    m.tables.flights.get? t.slot = some ⟨k, t.fingerprint⟩
  /-- An entry was stored by the last task for its slot and fingerprint. -/
  entries : ∀ {slot f a}, m.tables.stored? slot = some (f, a) →
    ∃ k t, m.tasks.get? k = some t ∧ t.slot = slot ∧ t.fingerprint = f ∧
      t.stage.settled? = some (.ok a) ∧
      ∀ {k' t'}, m.tasks.get? k' = some t' → t'.slot = slot → t'.fingerprint = f → k' ≤ k

theorem orderly_new (settings : CacheSettings) : (new settings : Machine π).Orderly where
  formed := formed_new settings
  flights := nofun
  latest := nofun
  holders := nofun
  entries := nofun

variable {m m' : Machine π}

/-- No two tasks hold a slot. -/
theorem Orderly.holder_unique (h : m.Orderly) {k k' : Nat} {t t' : Task π}
    (ht : m.tasks.get? k = some t) (hholding : t.stage.isHolding)
    (ht' : m.tasks.get? k' = some t') (hholding' : t'.stage.isHolding)
    (hslot : t'.slot = t.slot) : k' = k := by
  have hflight := h.holders ht hholding
  have hflight' := h.holders ht' hholding'
  rw [hslot, hflight] at hflight'
  exact congrArg Flight.ticket (Option.some.inj hflight'.symm)

/-- A task that takes its flight out spares the slots of all others. -/
theorem Orderly.spares_dropFlight (h : m.Orderly) {k : Nat} {t : Task π} {o : Outcome π}
    (ht : m.tasks.get? k = some t) (hholding : t.stage.isHolding) :
    m.Spares ((m.updateTables fun tables => tables.dropFlight t.slot).setStage k
      (.announcing o)) := by
  intro k' t' ht' hafter hholding'
  have hne : k' ≠ k := by
    intro hk
    rw [hk, get?_setStage_self (m := m.updateTables fun tables => tables.dropFlight t.slot)
      ht] at hafter
    cases hafter
    cases hholding'
  have hslot : t'.slot ≠ t.slot :=
    fun hslot => hne (h.holder_unique ht hholding ht' hholding' hslot)
  exact Table.get?_erase_of_ne _ hslot

/-- A task that has given its flight up has none. -/
theorem Orderly.ticket_ne (h : m.Orderly) {ticket : Nat} {t : Task π}
    (ht : m.tasks.get? ticket = some t) (hstage : ¬ t.stage.isRunning) {slot : Slot}
    {flight : Flight} (hflight : m.tables.flights.get? slot = some flight) :
    flight.ticket ≠ ticket := by
  intro hk
  rcases h.flights hflight with ⟨t', ht', _, _, hrunning⟩
  rw [hk, ht] at ht'
  cases ht'
  exact hstage hrunning

/-- What is stored for a fingerprint comes from the last task for it. -/
theorem Orderly.stored_of_latest (h : m.Orderly) {ticket : Nat} {t : Task π}
    (ht : m.tasks.get? ticket = some t)
    (hlatest : ∀ {k t'}, m.tasks.get? k = some t' → t'.slot = t.slot →
      t'.fingerprint = t.fingerprint → k ≤ ticket) {a : Held (Artifact π)}
    (hstored : m.tables.stored? t.slot = some (t.fingerprint, a)) :
    t.stage.settled? = some (.ok a) := by
  rcases h.entries hstored with ⟨k, t', ht', hslot, hf, ho, hlast⟩
  have hk : k = ticket := Nat.le_antisymm (hlatest ht' hslot hf) (hlast ht rfl rfl)
  rw [hk, ht] at ht'
  cases ht'
  exact ho

/-!
# Changes of the machine
-/

theorem Orderly.within (h : m.Orderly) (htasks : m'.tasks = m.tasks)
    (hwithin : m.tables.Within m'.tables) (hspares : m.Spares m') : m'.Orderly where
  formed := h.formed.of_tasks_eq htasks hwithin.nextTicket
  flights hflight := htasks ▸ h.flights (hwithin.flights hflight)
  latest hflight := htasks ▸ h.latest (hwithin.flights hflight)
  holders := by
    intro k t ht hholding
    rw [htasks] at ht
    rw [hspares ht (htasks ▸ ht) hholding]
    exact h.holders ht hholding
  entries hstored := htasks ▸ h.entries (hwithin.stored? hstored)

theorem Orderly.alike (h : m.Orderly) (htasks : m'.tasks = m.tasks)
    (halike : m.tables.Alike m'.tables) : m'.Orderly where
  formed := h.formed.of_tasks_eq htasks halike.nextTicket
  flights hflight := htasks ▸ h.flights (halike.flights ▸ hflight)
  latest hflight := htasks ▸ h.latest (halike.flights ▸ hflight)
  holders := by
    intro k t ht hholding
    rw [halike.flights]
    exact h.holders (htasks ▸ ht) hholding
  entries hstored := htasks ▸ h.entries (halike.stored ▸ hstored)

/-- A task goes on, and something may be removed with that. If it gives its flight up
then no flight may be left for it, and if it takes hold of its slot then its flight
must be there. -/
theorem Orderly.goOn (h : m.Orderly) {ticket : Nat} {t : Task π} {s : TaskStage π}
    (ht : m.tasks.get? ticket = some t) (htasks : m'.tasks = m.tasks)
    (hwithin : m.tables.Within m'.tables) (hspares : m.Spares (m'.setStage ticket s))
    (hrunning : s.isRunning ∨
      ∀ flight, m'.tables.flights.get? t.slot = some flight → flight.ticket ≠ ticket)
    (hsettled : ∀ o, t.stage.settled? = some o → s.settled? = some o)
    (hholding : s.isHolding → m'.tables.flights.get? t.slot = some ⟨ticket, t.fingerprint⟩) :
    (m'.setStage ticket s).Orderly := by
  have ht₁ : m'.tasks.get? ticket = some t := htasks ▸ ht
  have hself := get?_setStage_self ht₁ s
  have hothers {k : Nat} (hk : k ≠ ticket) :
      (m'.setStage ticket s).tasks.get? k = m.tasks.get? k := by
    rw [get?_setStage, if_neg hk, htasks]
  -- All tasks are as they were, except for one stage.
  have hback {k : Nat} {t' : Task π} (ht' : (m'.setStage ticket s).tasks.get? k = some t') :
      ∃ t₀, m.tasks.get? k = some t₀ ∧ t₀.slot = t'.slot ∧ t₀.fingerprint = t'.fingerprint := by
    rcases get?_of_setStage ht₁ ht' with ⟨rfl, rfl⟩ | ⟨_, ht'⟩
    · exact ⟨t, ht, rfl, rfl⟩
    · exact ⟨t', htasks ▸ ht', rfl, rfl⟩
  constructor
  · exact (h.formed.of_tasks_eq htasks hwithin.nextTicket).setStage ticket s
  · intro slot flight hflight
    rcases h.flights (hwithin.flights hflight) with ⟨t₀, ht₀, hslot, hf, hrun⟩
    by_cases hk : flight.ticket = ticket
    · rw [hk, ht] at ht₀
      cases ht₀
      rw [hk]
      refine ⟨_, hself, hslot, hf, ?_⟩
      rcases hrunning with hrunning | hlost
      · exact hrunning
      · exact absurd hk (hlost flight (hslot ▸ hflight))
    · exact ⟨t₀, (hothers hk).trans ht₀, hslot, hf, hrun⟩
  · intro slot flight hflight k t' ht' hslot
    rcases hback ht' with ⟨t₀, ht₀, hslot₀, _⟩
    exact h.latest (hwithin.flights hflight) ht₀ (hslot₀.trans hslot)
  · intro k t' ht' hhold
    rcases get?_of_setStage ht₁ ht' with ⟨rfl, rfl⟩ | ⟨_, ht₀⟩
    · exact hholding hhold
    · rw [htasks] at ht₀
      exact (hspares ht₀ ht' hhold).trans (h.holders ht₀ hhold)
  · intro slot f a hstored
    rcases h.entries (hwithin.stored? hstored) with ⟨k, t₀, ht₀, hslot, hf, ho, hlast⟩
    have hlast' {k' : Nat} {t' : Task π} (ht' : (m'.setStage ticket s).tasks.get? k' = some t')
        (hslot' : t'.slot = slot) (hf' : t'.fingerprint = f) : k' ≤ k := by
      rcases hback ht' with ⟨t₁, ht₁, hslot₁, hf₁⟩
      exact hlast ht₁ (hslot₁.trans hslot') (hf₁.trans hf')
    by_cases hk : k = ticket
    · rw [hk, ht] at ht₀
      cases ht₀
      exact ⟨ticket, _, hself, hslot, hf, hsettled _ ho, hk ▸ hlast'⟩
    · exact ⟨k, t₀, (hothers hk).trans ht₀, hslot, hf, ho, hlast'⟩

theorem Orderly.takeOff (h : m.Orderly) {r : Request π} {f : Fingerprint}
    (hspares : m.Spares (r.takeOff f m).2)
    (hlook : ∀ a, m.tables.stored? r.slot ≠ some (f, a)) : (r.takeOff f m).2.Orderly := by
  have hadds := Request.adds_takeOff (r := r) h.formed f
  have hflights (slot : Slot) : (r.takeOff f m).2.tables.flights.get? slot =
      if slot = r.slot then some ⟨m.tables.nextTicket, f⟩
      else m.tables.flights.get? slot := Table.get?_insert ..
  constructor
  · exact Request.formed_takeOff h.formed f
  · intro slot flight hflight
    rw [hflights] at hflight
    by_cases hslot : slot = r.slot
    · rw [if_pos hslot] at hflight
      cases hflight
      exact ⟨_, Request.get?_takeOff_self .., hslot.symm, rfl, rfl⟩
    · rw [if_neg hslot] at hflight
      rcases h.flights hflight with ⟨t, ht, hrest⟩
      exact ⟨t, hadds ht, hrest⟩
  · intro slot flight hflight k t ht htslot
    have hle : k ≤ m.tables.nextTicket :=
      Nat.le_of_lt_succ ((Request.formed_takeOff h.formed f).lt_nextTicket ht)
    rw [hflights] at hflight
    by_cases hslot : slot = r.slot
    · rw [if_pos hslot] at hflight
      cases hflight
      exact hle
    · rw [if_neg hslot] at hflight
      rcases Request.get?_of_takeOff ht with ⟨_, rfl⟩ | ⟨_, ht⟩
      · exact absurd htslot.symm hslot
      · exact h.latest hflight ht htslot
  · intro k t ht hholding
    rcases Request.get?_of_takeOff ht with ⟨_, rfl⟩ | ⟨_, ht₀⟩
    · cases hholding
    · rw [hspares ht₀ ht hholding]
      exact h.holders ht₀ hholding
  · intro slot f' a hstored
    rcases h.entries hstored with ⟨k, t, ht, hslot, hf, ho, hlast⟩
    refine ⟨k, t, hadds ht, hslot, hf, ho, ?_⟩
    intro k' t' ht' hslot' hf'
    rcases Request.get?_of_takeOff ht' with ⟨_, rfl⟩ | ⟨_, ht'⟩
    · cases hf'
      rw [← hslot'] at hstored
      exact absurd hstored (hlook a)
    · exact hlast ht' hslot' hf'

/-- A task that holds its slot stores its artifact there. -/
theorem Orderly.store (h : m.Orderly) {ticket : Nat} {t : Task π} {a : Held (Artifact π)}
    (ht : m.tasks.get? ticket = some t) (hstage : t.stage = .storing a) :
    ((m.updateTables fun tables => tables.store t.slot t.fingerprint a).setStage ticket
      (.clearing (.ok a))).Orderly := by
  have hholding : m.tables.flights.get? t.slot = some ⟨ticket, t.fingerprint⟩ :=
    h.holders ht (by rw [hstage]; rfl)
  have hset : (m.setStage ticket (.clearing (.ok a))).Orderly := by
    refine h.goOn ht rfl (.refl _) (spares_of_flights_eq rfl) (.inl rfl) ?_ fun _ => hholding
    intro o ho
    rw [hstage] at ho
    cases ho
  refine ⟨⟨hset.formed.nodup, hset.formed.tickets⟩, hset.flights, hset.latest, hset.holders, ?_⟩
  intro slot f a' hstored
  have hstored' := (Tables.stored?_store m.tables t.slot slot t.fingerprint a).symm.trans hstored
  by_cases hslot : slot = t.slot
  · rw [if_pos hslot] at hstored'
    cases hstored'
    refine ⟨ticket, { t with stage := .clearing (.ok a) }, get?_setStage_self ht _,
      hslot.symm, rfl, rfl, ?_⟩
    intro k' t' ht' hslot' _
    exact hset.latest hholding ht' (hslot'.trans hslot)
  · rw [if_neg hslot] at hstored'
    exact hset.entries hstored'

end Machine

/-!
# Every step keeps it
-/

theorem Request.orderly_of_moves {environment : String} {r r' : Request π} {m m' : Machine π}
    (h : m.Orderly) (hmove : r.Moves environment m (r', m')) (hspares : m.Spares m') :
    m'.Orderly := by
  rcases effect_of_moves hmove with ⟨htasks, halike⟩ | ⟨f, _, hnext, hlook, _⟩
  · exact h.alike htasks halike
  · cases hnext
    exact h.takeOff hspares hlook

theorem Task.orderly_of_moves {b : Backend π} {gateOpen : Bool} {ticket : Nat} {t : Task π}
    {m m' : Machine π} (h : m.Orderly) (ht : m.tasks.get? ticket = some t)
    (hmove : t.Moves b gateOpen ticket m m') (hspares : m.Spares m') : m'.Orderly := by
  -- A step of a task that neither publishes nor has published.
  have hset {m₁ : Machine π} {s : TaskStage π} (htasks : m₁.tasks = m.tasks)
      (hwithin : m.tables.Within m₁.tables) (hspares : m.Spares (m₁.setStage ticket s))
      (hbefore : t.stage.settled? = none) (hrunning : s.isRunning) (hafter : ¬ s.isHolding) :
      (m₁.setStage ticket s).Orderly := by
    refine h.goOn ht htasks hwithin hspares (.inl hrunning) ?_ fun hhold => absurd hhold hafter
    intro o ho
    rw [hbefore] at ho
    cases ho
  -- The flight of a task is for its fingerprint.
  have hown {f : Fingerprint} (hflight : m.tables.flights.get? t.slot = some ⟨ticket, f⟩) :
      m.tables.flights.get? t.slot = some ⟨ticket, t.fingerprint⟩ := by
    rcases h.flights hflight with ⟨t', ht', _, hf, _⟩
    rw [ht] at ht'
    cases ht'
    rw [hflight, hf]
  cases hmove with
  | unknown hstage hproject =>
      refine hset rfl (.refl _) hspares ?_ rfl Bool.false_ne_true
      rcases hstage with hstage | ⟨references, hstage⟩
      · rw [hstage]
        rfl
      · rw [hstage]
        rfl
  | entered hstage =>
      exact hset rfl (.refl _) hspares (by rw [hstage]; rfl) rfl Bool.false_ne_true
  | stepped hstage hactive hrequest =>
      have hfree : ¬ t.stage.isHolding := by
        rw [hstage]
        exact Bool.false_ne_true
      have hm₁ := Request.orderly_of_moves h hrequest (hspares.of_setStage ht hfree)
      have ht₁ := (Request.formed_of_moves h.formed hrequest).right ht
      refine hm₁.goOn ht₁ rfl (.refl _) (Machine.spares_of_flights_eq rfl) (.inl rfl) ?_
        (fun hhold => absurd hhold Bool.false_ne_true)
      intro o ho
      rw [hstage] at ho
      cases ho
  | failed hstage hgathered =>
      exact hset rfl (.refl _) hspares (by rw [hstage]; rfl) rfl Bool.false_ne_true
  | asked hstage hlast =>
      exact hset rfl (.refl _) hspares (by rw [hstage]; rfl) rfl Bool.false_ne_true
  | gathered hstage hgathered =>
      exact hset rfl (.refl _) hspares (by rw [hstage]; rfl) rfl Bool.false_ne_true
  | counted hstage =>
      exact hset rfl (Tables.within_countCompile _) hspares (by rw [hstage]; rfl) rfl
        Bool.false_ne_true
  | called hstage hproject =>
      exact hset rfl (.refl _) hspares (by rw [hstage]; rfl) rfl Bool.false_ne_true
  | answered hstage hopen =>
      exact hset rfl (Task.within_conclude _ _ _) hspares (by rw [hstage]; rfl) rfl
        Bool.false_ne_true
  | landed hstage hflight =>
      refine h.goOn ht rfl (.refl _) hspares (.inl rfl) ?_ fun _ => hown hflight
      intro o ho
      rw [hstage] at ho
      cases ho
  | crashed hstage hflight =>
      refine h.goOn ht rfl (.refl _) hspares (.inl rfl) ?_ fun _ => hown hflight
      intro o ho
      rw [hstage] at ho
      cases ho
  | diverted hstage hlost =>
      refine h.goOn ht rfl (.refl _) hspares (.inr hlost) ?_
        fun hhold => absurd hhold Bool.false_ne_true
      intro o ho
      rw [hstage] at ho
      cases ho
  | stored hstage => exact h.store ht hstage
  | cleared hstage =>
      refine h.goOn ht rfl (Tables.within_dropFlight _ _) hspares (.inr ?_) ?_
        fun hhold => absurd hhold Bool.false_ne_true
      · intro flight hflight
        have hnone : (m.tables.flights.erase t.slot).get? t.slot = some flight := hflight
        rw [Table.get?_erase_self] at hnone
        cases hnone
      · intro o ho
        rwa [hstage] at ho
  | announced hstage =>
      refine h.goOn ht rfl (.refl _) hspares (.inr ?_) ?_
        fun hhold => absurd hhold Bool.false_ne_true
      · intro flight hflight
        refine h.ticket_ne ht ?_ hflight
        rw [hstage]
        exact Bool.false_ne_true
      · intro o ho
        rwa [hstage] at ho
  | swept hstage =>
      refine h.goOn ht rfl (Tables.within_sweepCapacity _) hspares (.inr ?_) ?_
        fun hhold => absurd hhold Bool.false_ne_true
      · intro flight hflight
        refine h.ticket_ne ht ?_ ((Tables.within_sweepCapacity m.tables).flights hflight)
        rw [hstage]
        exact Bool.false_ne_true
      · intro o ho
        rwa [hstage] at ho

theorem Machine.Orderly.turns {backends : Set (Backend π)} {allowed : Set Upkeep}
    {m m' : Machine π} (h : m.Orderly) (hturn : m.Turns backends allowed m')
    (hspares : m.Spares m') : m'.Orderly := by
  cases hturn with
  | task hb ht hmove => exact Task.orderly_of_moves h ht hmove hspares
  | request hb hmove => exact Request.orderly_of_moves h hmove hspares
  | upkeep hu => exact h.within rfl (Upkeep.within _ _) hspares
  | aside htasks hentries hflights hticket =>
      exact h.alike htasks (Tables.alike_of_same hentries hflights hticket)

theorem World.orderly_of_attained {backends : Set (Backend π)} {allowed : Set Upkeep}
    {settings : CacheSettings} {w : World π} (h : w.Attained backends allowed settings) :
    w.machine.Orderly := by
  induction h with
  | refl => exact Machine.orderly_new settings
  | tail _ hturn ih => exact ih.turns hturn.machine.left hturn.machine.right

end Cache
end Ripple
