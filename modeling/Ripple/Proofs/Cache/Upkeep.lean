import Ripple.Cache.Sweep

/-!
# Upkeep

Invalidation, sweeps, counting and stamping only ever take something out of the
tables. What they leave is what was there, except that an entry that has been
looked up counts as used.
-/

namespace Ripple
namespace Cache
namespace Tables

variable {π : Type}

/-- Everything in the later tables is in the earlier ones. -/
structure Within (t t' : Tables π) : Prop where
  entries : ∀ {slot e'}, t'.entries.get? slot = some e' →
    ∃ e, t.entries.get? slot = some e ∧ e.fingerprint = e'.fingerprint ∧ e.artifact = e'.artifact
  flights : ∀ {slot flight}, t'.flights.get? slot = some flight →
    t.flights.get? slot = some flight
  listings : ∀ {key l}, t'.listings.get? key = some l → t.listings.get? key = some l
  nextTicket : t'.nextTicket = t.nextTicket

theorem within_of_same {t t' : Tables π} (hentries : t'.entries = t.entries)
    (hflights : t'.flights = t.flights) (hlistings : t'.listings = t.listings)
    (hticket : t'.nextTicket = t.nextTicket) : t.Within t' :=
  ⟨fun h => ⟨_, hentries ▸ h, rfl, rfl⟩, fun h => hflights ▸ h, fun h => hlistings ▸ h, hticket⟩

theorem Within.refl (t : Tables π) : t.Within t :=
  within_of_same rfl rfl rfl rfl

theorem Within.trans {t t' t'' : Tables π} (h : t.Within t') (h' : t'.Within t'') :
    t.Within t'' := by
  refine ⟨?_, fun hf => h.flights (h'.flights hf), fun hl => h.listings (h'.listings hl),
    h'.nextTicket.trans h.nextTicket⟩
  intro slot e'' he''
  rcases h'.entries he'' with ⟨e', he', hf', ha'⟩
  rcases h.entries he' with ⟨e, he, hf, ha⟩
  exact ⟨e, he, hf.trans hf', ha.trans ha'⟩

theorem within_countHit (t : Tables π) : t.Within t.countHit :=
  within_of_same rfl rfl rfl rfl

theorem within_countMiss (t : Tables π) : t.Within t.countMiss :=
  within_of_same rfl rfl rfl rfl

theorem within_countCompile (t : Tables π) : t.Within t.countCompile :=
  within_of_same rfl rfl rfl rfl

theorem within_countEvictions (t : Tables π) (n : Nat) : t.Within (t.countEvictions n) :=
  within_of_same rfl rfl rfl rfl

theorem within_stamp (t : Tables π) {α : Type} (a : α) : t.Within (t.stamp a).2 :=
  within_of_same rfl rfl rfl rfl

theorem within_clock (t : Tables π) (now : Nat) : t.Within { t with clock := now } :=
  within_of_same rfl rfl rfl rfl

theorem within_lookUp {t t' : Tables π} {slot : Slot} {f : Fingerprint}
    {a : Held (Artifact π)} (h : t.lookUp slot f = some (a, t')) : t.Within t' := by
  unfold lookUp at h
  cases he : t.entries.get? slot with
  | none =>
      rw [he] at h
      cases h
  | some e =>
      simp only [he] at h
      by_cases hf : e.fingerprint = f
      · rw [if_pos hf] at h
        cases h
        refine ⟨?_, id, id, rfl⟩
        intro slot' e' he'
        rw [Table.get?_insert] at he'
        by_cases hslot : slot' = slot
        · rw [if_pos hslot] at he'
          cases he'
          exact ⟨e, hslot ▸ he, rfl, rfl⟩
        · rw [if_neg hslot] at he'
          exact ⟨e', he', rfl, rfl⟩
      · rw [if_neg hf] at h
        cases h

/-!
# Removals
-/

theorem get?_of_get?_erase {κ ν : Type} [DecidableEq κ] {t : Table κ ν} {k k' : κ} {v : ν}
    (h : (t.erase k).get? k' = some v) : t.get? k' = some v := by
  rw [Table.get?_erase] at h
  by_cases hk : k' = k
  · rw [if_pos hk] at h
    cases h
  · rwa [if_neg hk] at h

theorem get?_of_get?_filter {κ ν : Type} [DecidableEq κ] {t : Table κ ν} (keep : κ → Bool)
    {k : κ} {v : ν} (h : (t.filter fun k' _ => keep k').get? k = some v) :
    t.get? k = some v := by
  rw [Table.get?_filter_keys] at h
  by_cases hk : keep k
  · rwa [if_pos hk] at h
  · rw [if_neg hk] at h
    cases h

theorem within_dropFlight (t : Tables π) (slot : Slot) : t.Within (t.dropFlight slot) :=
  ⟨fun h => ⟨_, h, rfl, rfl⟩, get?_of_get?_erase, id, rfl⟩

theorem within_dropEntry (t : Tables π) (slot : Slot) : t.Within (t.dropEntry slot) :=
  ⟨fun h => ⟨_, get?_of_get?_erase h, rfl, rfl⟩, id, id, rfl⟩

theorem within_dropListings (t : Tables π) (slot : Slot) : t.Within (t.dropListings slot) :=
  ⟨fun h => ⟨_, h, rfl, rfl⟩, id,
    get?_of_get?_filter fun key : ListingKey => decide (key.slot ≠ slot), rfl⟩

theorem within_dropSessionFlights (t : Tables π) (s : SessionId) :
    t.Within (t.dropSessionFlights s) :=
  ⟨fun h => ⟨_, h, rfl, rfl⟩,
    get?_of_get?_filter fun slot : Slot => decide (slot.session ≠ s), id, rfl⟩

theorem within_dropSessionEntries (t : Tables π) (s : SessionId) :
    t.Within (t.dropSessionEntries s) :=
  ⟨fun h => ⟨_, get?_of_get?_filter (fun slot : Slot => decide (slot.session ≠ s)) h,
    rfl, rfl⟩, id, id, rfl⟩

theorem within_dropSessionListings (t : Tables π) (s : SessionId) :
    t.Within (t.dropSessionListings s) :=
  ⟨fun h => ⟨_, h, rfl, rfl⟩, id,
    get?_of_get?_filter fun key : ListingKey => decide (key.slot.session ≠ s), rfl⟩

/-!
# Invalidation and sweeps
-/

theorem within_invalidate (t : Tables π) (session : SessionId) (project : ProjectId) :
    t.Within (t.invalidate session project) :=
  (within_dropFlight t _).trans ((within_dropEntry _ _).trans (within_dropListings _ _))

theorem within_invalidateAll (t : Tables π) (session : SessionId) (ids : List ProjectId) :
    t.Within (t.invalidateAll session ids) := by
  induction ids generalizing t with
  | nil => exact .refl t
  | cons id ids ih => exact (within_invalidate t session id).trans (ih _)

theorem within_invalidateDownstream (t : Tables π) (session : SessionId) (g : Graph)
    (project : ProjectId) : t.Within (t.invalidateDownstream session g project) :=
  within_invalidateAll t session _

theorem within_invalidateSession (t : Tables π) (session : SessionId) :
    t.Within (t.invalidateSession session) :=
  (within_dropSessionFlights t session).trans
    ((within_dropSessionEntries _ session).trans (within_dropSessionListings _ session))

theorem within_evict {t t' : Tables π} {slot : Slot} {seen : Nat}
    (h : t.evict slot seen = some t') : t.Within t' := by
  unfold evict at h
  cases he : t.entries.get? slot with
  | none =>
      rw [he] at h
      cases h
  | some e =>
      simp only [he] at h
      by_cases hseen : e.lastAccess = seen
      · rw [if_pos hseen] at h
        cases h
        exact (within_dropEntry t slot).trans (within_dropListings _ slot)
      · rw [if_neg hseen] at h
        cases h

theorem within_evictAll (t : Tables π) (candidates : List (Slot × Nat)) :
    t.Within (t.evictAll candidates).2 := by
  induction candidates generalizing t with
  | nil => exact .refl t
  | cons candidate rest ih =>
      simp only [evictAll]
      cases hevict : t.evict candidate.1 candidate.2 with
      | none => exact ih t
      | some t' => exact (within_evict hevict).trans (ih t')

theorem within_sweep (t : Tables π) (candidates : List (Slot × Nat)) :
    t.Within (t.sweep candidates).2 :=
  (within_evictAll t candidates).trans (within_countEvictions _ _)

theorem within_sweepExpired (t : Tables π) (maxAge : Nat) :
    t.Within (t.sweepExpired maxAge).2 :=
  within_sweep t _

theorem within_sweepCapacity (t : Tables π) : t.Within t.sweepCapacity.2 :=
  within_sweep t _

end Tables
end Cache
end Ripple
