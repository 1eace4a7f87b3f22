import Mathlib.Data.Finset.Card
import Mathlib.Data.List.Nodup
import Ripple.Proofs.Cache.Runs

/-!
# What sweeps remove

A sweep notes entries with their last uses and takes them out one by one, each with the
listings of its slot. With no turn in between all that was noted is still as it was, so
the sweep takes out what it noted and nothing else.
-/

namespace Ripple

namespace Table

variable {κ ν : Type}

theorem filter_filter_keys (t : Table κ ν) (p q : κ → Bool) :
    ((t.filter fun k _ => p k).filter fun k _ => q k) = t.filter fun k _ => p k && q k := by
  simp only [filter, List.filter_filter, Bool.and_comm]

theorem nodup_keys_filter {t : Table κ ν} (h : t.keys.Nodup) (keep : κ → ν → Bool) :
    (t.filter keep).keys.Nodup :=
  h.sublist (List.filter_sublist.map Prod.fst)

/-- The size falls by as many keys as are taken out. -/
theorem size_filter_not_mem [DecidableEq κ] {t : Table κ ν} (h : t.keys.Nodup) {gone : Finset κ}
    (hgone : ∀ k ∈ gone, k ∈ t.keys) :
    (t.filter fun k _ => k ∉ gone).size + gone.card = t.size := by
  have hkept : (t.filter fun k _ => k ∉ gone).keys = t.keys.filter (· ∉ gone) := by
    simp only [keys, filter, List.filter_map]
    rfl
  have hout : (t.keys.filter (· ∈ gone)).length = gone.card := by
    rw [← List.toFinset_card_of_nodup (h.filter _)]
    congr 1
    ext k
    simp only [List.mem_toFinset, List.mem_filter, decide_eq_true_eq]
    exact and_iff_right_of_imp (hgone k)
  have hsplit := List.length_eq_length_filter_add (l := t.keys) (· ∈ gone)
  have hsize (t : Table κ ν) : t.size = t.keys.length := (List.length_map Prod.fst).symm
  rw [hsize, hsize, hkept, hsplit, hout, Nat.add_comm]
  simp only [decide_not]

end Table

namespace Cache

variable {π : Type}

namespace Tables

/-!
# Noted entries
-/

/-- The tables without the entries of some slots and without their listings. -/
def without (t : Tables π) (gone : Finset Slot) : Tables π :=
  { t with
    entries := t.entries.filter fun slot _ => slot ∉ gone
    listings := t.listings.filter fun key _ => key.slot ∉ gone }

theorem without_without (t : Tables π) (gone more : Finset Slot) :
    (t.without gone).without more = t.without (gone ∪ more) := by
  simp only [without, Table.filter_filter_keys, Finset.mem_union, not_or, Bool.decide_and]

theorem without_empty (t : Tables π) : t.without ∅ = t := by
  simp [without, Table.filter]

theorem evict_of_seen {t : Tables π} {slot : Slot} {e : Entry π}
    (h : t.entries.get? slot = some e) : t.evict slot e.lastAccess = some (t.without {slot}) := by
  simp only [evict, h, without, dropEntry, dropListings, Finset.mem_singleton, if_true]
  rfl

/-- What a sweep has noted: slots with the last uses of their entries, each slot once. -/
structure Notes (t : Tables π) (noted : List (Slot × Nat)) : Prop where
  nodup : (noted.map Prod.fst).Nodup
  seen : ∀ use ∈ noted, ∃ e, t.entries.get? use.1 = some e ∧ e.lastAccess = use.2

/-- All that has been noted is taken out. -/
theorem Notes.evictAll {t : Tables π} {noted : List (Slot × Nat)} (h : t.Notes noted) :
    t.evictAll noted = (noted.length, t.without (noted.map Prod.fst).toFinset) := by
  induction noted generalizing t with
  | nil =>
      rw [List.map_nil, List.toFinset_nil, without_empty]
      rfl
  | cons use rest ih =>
      rcases List.nodup_cons.mp h.nodup with ⟨hfresh, hnodup⟩
      rcases h.seen use List.mem_cons_self with ⟨e, he, hseen⟩
      -- The other slots keep their entries when the first one loses its own.
      have hrest : (t.without {use.1}).Notes rest := by
        constructor
        · exact hnodup
        · intro other hother
          rcases h.seen other (List.mem_cons_of_mem _ hother) with ⟨e', he', hseen'⟩
          have hne : other.1 ∉ ({use.1} : Finset Slot) := by
            intro hmem
            rw [← Finset.mem_singleton.mp hmem] at hfresh
            exact hfresh (List.mem_map_of_mem hother)
          refine ⟨e', ?_, hseen'⟩
          rw [without, Table.get?_filter_keys, decide_eq_true hne]
          exact he'
      rw [Tables.evictAll, ← hseen, evict_of_seen he]
      simp only [ih hrest, without_without, List.length_cons, List.map_cons, List.toFinset_cons,
        Finset.insert_eq]

/-!
# The uses of all entries
-/

theorem map_fst_uses (t : Tables π) : t.uses.map Prod.fst = t.entries.keys := by
  simp only [uses, Table.keys, List.map_map]
  rfl

theorem length_uses (t : Tables π) : t.uses.length = t.entries.size :=
  List.length_map _

theorem mem_uses_iff {t : Tables π} (hnodup : t.entries.keys.Nodup) {use : Slot × Nat} :
    use ∈ t.uses ↔ ∃ e, t.entries.get? use.1 = some e ∧ e.lastAccess = use.2 := by
  constructor
  · intro h
    rcases List.mem_map.mp h with ⟨row, hrow, rfl⟩
    exact ⟨row.2, Table.get?_of_mem_rows hnodup hrow, rfl⟩
  · rintro ⟨e, he, hseen⟩
    exact List.mem_map.mpr ⟨(use.1, e), Table.mem_rows_of_get? he, Prod.ext rfl hseen⟩

/-- Any choice among the uses may be noted. -/
theorem notes_of_subperm {t : Tables π} (hnodup : t.entries.keys.Nodup)
    {noted : List (Slot × Nat)} (h : noted.Subperm t.uses) : t.Notes noted := by
  constructor
  · have hslots : (t.uses.map Prod.fst).Nodup := t.map_fst_uses ▸ hnodup
    rcases h with ⟨uses, hperm, hsublist⟩
    exact (hperm.map Prod.fst).nodup (hslots.sublist (hsublist.map Prod.fst))
  · intro use huse
    exact (mem_uses_iff hnodup).mp (h.subset huse)

/-!
# Evictions
-/

/-- The tables `t'` lack the entries of the slots `gone` and their listings, and have all
`n` of them counted as evicted. Every other entry and listing is there as it was, and so
are the compiles under way and everything else. -/
structure Evicts (t : Tables π) (gone : Finset Slot) (n : Nat) (t' : Tables π) : Prop where
  stored : ∀ slot ∈ gone, ∃ e, t.entries.get? slot = some e
  entries : ∀ slot,
    t'.entries.get? slot = if slot ∈ gone then none else t.entries.get? slot
  listings : ∀ key,
    t'.listings.get? key = if key.slot ∈ gone then none else t.listings.get? key
  flights : t'.flights = t.flights
  count : n = gone.card
  size : t'.entries.size + n = t.entries.size
  counters : t'.counters = { t.counters with evictions := t.counters.evictions + n }
  frame : t' = { t with
    entries := t'.entries, listings := t'.listings, counters := t'.counters }

theorem Notes.sweep {t : Tables π} (hnodup : t.entries.keys.Nodup)
    {noted : List (Slot × Nat)} (h : t.Notes noted) :
    t.Evicts (noted.map Prod.fst).toFinset (t.sweep noted).1 (t.sweep noted).2 := by
  have hstored : ∀ slot ∈ (noted.map Prod.fst).toFinset, ∃ e, t.entries.get? slot = some e := by
    intro slot hslot
    rcases List.mem_map.mp (List.mem_toFinset.mp hslot) with ⟨use, huse, rfl⟩
    rcases h.seen use huse with ⟨e, he, _⟩
    exact ⟨e, he⟩
  have hcount : noted.length = (noted.map Prod.fst).toFinset.card := by
    rw [List.toFinset_card_of_nodup h.nodup, List.length_map]
  simp only [Tables.sweep, h.evictAll]
  generalize (noted.map Prod.fst).toFinset = gone at *
  exact {
    stored := hstored
    entries := fun slot => by
      change (t.entries.filter fun slot _ => slot ∉ gone).get? slot = _
      rw [Table.get?_filter_keys]
      by_cases hslot : slot ∈ gone <;> simp [hslot]
    listings := fun key => by
      change (t.listings.filter fun key _ => key.slot ∉ gone).get? key = _
      rw [Table.get?_filter_keys t.listings fun key => key.slot ∉ gone]
      by_cases hslot : key.slot ∈ gone <;> simp [hslot]
    flights := rfl
    count := hcount
    size := by
      rw [hcount]
      exact Table.size_filter_not_mem hnodup fun slot hslot =>
        Table.mem_keys_iff.mpr (hstored slot hslot)
    counters := rfl
    frame := rfl }

/-!
# The capacity sweep
-/

theorem evictionCount_of_le {count mark : Nat} (fraction : Float) (h : count ≤ mark) :
    evictionCount count mark fraction = 0 :=
  if_pos h

theorem one_le_evictionCount {count mark : Nat} (fraction : Float) (h : mark < count) :
    1 ≤ evictionCount count mark fraction := by
  rw [evictionCount, if_neg (Nat.not_le.mpr h)]
  exact Nat.le_max_left _ _

theorem evictionCount_le (count mark : Nat) (fraction : Float) :
    evictionCount count mark fraction ≤ count := by
  by_cases h : count ≤ mark
  · rw [evictionCount_of_le fraction h]
    exact Nat.zero_le count
  · rw [evictionCount, if_neg h]
    exact Nat.max_le.mpr ⟨by omega, Nat.min_le_left _ _⟩

/-- The uses from the least recent one on. -/
def byUse (t : Tables π) : List (Slot × Nat) :=
  t.uses.mergeSort fun a b => decide (a.2 ≤ b.2)

theorem pairwise_byUse (t : Tables π) : t.byUse.Pairwise fun a b => a.2 ≤ b.2 := by
  have htrans : ∀ a b c : Slot × Nat,
      decide (a.2 ≤ b.2) = true → decide (b.2 ≤ c.2) = true → decide (a.2 ≤ c.2) = true := by
    intro a b c hab hbc
    exact decide_eq_true (Nat.le_trans (of_decide_eq_true hab) (of_decide_eq_true hbc))
  have htotal : ∀ a b : Slot × Nat, (decide (a.2 ≤ b.2) || decide (b.2 ≤ a.2)) = true := by
    intro a b
    simpa using Nat.le_total a.2 b.2
  exact (List.pairwise_mergeSort htrans htotal t.uses).imp of_decide_eq_true

theorem length_surplus (t : Tables π) :
    t.surplus.length =
      evictionCount t.entries.size t.settings.highWaterMark t.settings.evictionFraction := by
  rw [surplus, List.length_take, List.length_mergeSort, length_uses]
  exact Nat.min_eq_left (evictionCount_le _ _ _)

theorem notes_surplus {t : Tables π} (hnodup : t.entries.keys.Nodup) : t.Notes t.surplus :=
  notes_of_subperm hnodup
    ((List.take_sublist _ t.byUse).subperm.trans (List.mergeSort_perm t.uses _).subperm)

/-- No surplus entry has been used after an entry that is not surplus. -/
theorem le_of_surplus {t : Tables π} (hnodup : t.entries.keys.Nodup) {slot other : Slot}
    {e e' : Entry π} (hslot : slot ∈ t.surplus.map Prod.fst)
    (hother : other ∉ t.surplus.map Prod.fst) (he : t.entries.get? slot = some e)
    (he' : t.entries.get? other = some e') : e.lastAccess ≤ e'.lastAccess := by
  rcases List.mem_map.mp hslot with ⟨use, huse, rfl⟩
  rcases (notes_surplus hnodup).seen use huse with ⟨e₁, he₁, hseen⟩
  rw [he] at he₁
  cases he₁
  have hmem : (other, e'.lastAccess) ∈ t.byUse :=
    List.mem_mergeSort.mpr ((mem_uses_iff hnodup).mpr ⟨e', he', rfl⟩)
  have hsorted := t.pairwise_byUse
  rw [← List.take_append_drop
    (evictionCount t.entries.size t.settings.highWaterMark t.settings.evictionFraction)
    t.byUse] at hmem hsorted
  rcases List.mem_append.mp hmem with htaken | hleft
  · exact absurd (List.mem_map_of_mem htaken) hother
  · exact hseen ▸ (List.pairwise_append.mp hsorted).right.right use huse _ hleft

theorem sweepCapacity_of_le {t : Tables π} (h : t.entries.size ≤ t.settings.highWaterMark) :
    t.sweepCapacity = (0, t) := by
  have hnone : t.surplus = [] := by
    rw [← List.length_eq_zero_iff, length_surplus, evictionCount_of_le _ h]
  rw [sweepCapacity, hnone]
  rfl

end Tables

/-!
# One entry for each slot
-/

namespace Tables

/-- The settings stay, and no slot gets a second entry. -/
def Keeps (t t' : Tables π) : Prop :=
  t'.settings = t.settings ∧ (t.entries.keys.Nodup → t'.entries.keys.Nodup)

theorem Keeps.refl (t : Tables π) : t.Keeps t :=
  ⟨rfl, id⟩

theorem Keeps.trans {t t' t'' : Tables π} (h : t.Keeps t') (h' : t'.Keeps t'') : t.Keeps t'' :=
  ⟨h'.left.trans h.left, h'.right ∘ h.right⟩

theorem keeps_lookUp {t t' : Tables π} {slot : Slot} {f : Fingerprint}
    {a : Held (Artifact π)} (h : t.lookUp slot f = some (a, t')) : t.Keeps t' := by
  rcases lookUp_eq_some_iff.mp h with ⟨e, _, _, _, rfl⟩
  exact ⟨rfl, fun hnodup => Table.nodup_keys_insert hnodup _ _⟩

theorem keeps_store (t : Tables π) (slot : Slot) (f : Fingerprint) (a : Held (Artifact π)) :
    t.Keeps (t.store slot f a) :=
  ⟨rfl, fun hnodup => Table.nodup_keys_insert hnodup _ _⟩

theorem keeps_dropEntry (t : Tables π) (slot : Slot) : t.Keeps (t.dropEntry slot) :=
  ⟨rfl, fun hnodup => Table.nodup_keys_erase hnodup slot⟩

theorem keeps_without (t : Tables π) (gone : Finset Slot) : t.Keeps (t.without gone) :=
  ⟨rfl, fun hnodup => Table.nodup_keys_filter hnodup _⟩

theorem keeps_invalidateAll (t : Tables π) (session : SessionId) (ids : List ProjectId) :
    t.Keeps (t.invalidateAll session ids) := by
  induction ids generalizing t with
  | nil => exact .refl t
  | cons id ids ih => exact (t.keeps_dropEntry ⟨session, id⟩).trans (ih (t.invalidate session id))

theorem keeps_evictAll (t : Tables π) (noted : List (Slot × Nat)) :
    t.Keeps (t.evictAll noted).2 := by
  induction noted generalizing t with
  | nil => exact .refl t
  | cons use rest ih =>
      rw [evictAll]
      cases he : t.entries.get? use.1 with
      | none =>
          simp only [evict, he]
          exact ih t
      | some e =>
          by_cases hseen : e.lastAccess = use.2
          · rw [← hseen, evict_of_seen he]
            exact (t.keeps_without {use.1}).trans (ih _)
          · simp only [evict, he, if_neg hseen]
            exact ih t

end Tables

theorem Upkeep.keeps (u : Upkeep) (t : Tables π) : t.Keeps (u.apply t) := by
  cases u with
  | invalidate session project => exact t.keeps_dropEntry ⟨session, project⟩
  | invalidateDownstream session g project => exact t.keeps_invalidateAll session _
  | invalidateSession session =>
      exact ⟨rfl, fun hnodup => Table.nodup_keys_filter hnodup _⟩
  | sweepExpired maxAge => exact t.keeps_evictAll _
  | sweepCapacity => exact t.keeps_evictAll _
  | dropEntry slot => exact t.keeps_dropEntry slot
  | dropFlight slot | dropListings slot | countEvictions n => exact .refl t

theorem Request.keeps_of_moves {environment : String} {r r' : Request π} {m m' : Machine π}
    (h : r.Moves environment m (r', m')) : m.tables.Keeps m'.tables := by
  generalize hnext : (r', m') = next at h
  cases h with
  | found hstage hprint hlook =>
      cases hnext
      exact Tables.keeps_lookUp hlook
  | stored hstage hlook =>
      cases hnext
      exact Tables.keeps_lookUp hlook
  | _ =>
      cases hnext
      exact ⟨rfl, id⟩

theorem Task.keeps_of_moves {b : Backend π} {gateOpen : Bool} {ticket : Nat} {t : Task π}
    {m m' : Machine π} (h : t.Moves b gateOpen ticket m m') : m.tables.Keeps m'.tables := by
  cases h with
  | stepped hstage hactive hmove => exact (Request.keeps_of_moves hmove :)
  | @answered u hstage hopen =>
      change m.tables.Keeps (conclude t.project m.tables (b.compile u)).2
      cases b.compile u <;> exact ⟨rfl, id⟩
  | stored hstage => exact m.tables.keeps_store _ _ _
  | swept hstage => exact m.tables.keeps_evictAll _
  | _ => exact ⟨rfl, id⟩

theorem ClientStage.keeps_of_moves {b : Backend π} {s s' : Schedule π}
    {stage stage' : ClientStage π} (h : stage.Moves b s stage' s') :
    s.tables.Keeps s'.tables := by
  cases h with
  | goesOn hactive => exact Request.keeps_of_moves (Request.moves_of_step _ _ hactive)
  | receives hanswer =>
      rcases Schedule.eq_of_answer hanswer with rfl | ⟨a, rfl⟩ <;> exact ⟨rfl, id⟩
  | _ => exact ⟨rfl, id⟩

namespace World

variable {b : Backend π} {settings : CacheSettings} {w w' : World π}

theorem keeps_of_step (h : w.Step b w') : w.schedule.tables.Keeps w'.schedule.tables := by
  cases h with
  | work hwork =>
      cases hwork with
      | job hjob =>
          cases Schedule.steps_of_stepJob hjob with
          | task ht hmove => exact Task.keeps_of_moves hmove
          | batch hbatch hactive hmove => exact Request.keeps_of_moves hmove
      | client hclients hmove => exact ClientStage.keeps_of_moves hmove
  | upkeep u => exact u.keeps _
  | _ => exact ⟨rfl, id⟩

theorem keeps_of_reachable (h : w.Reachable b settings) :
    (Tables.new settings).Keeps w.schedule.tables := by
  induction h with
  | refl => exact .refl _
  | tail _ hstep ih => exact ih.trans (keeps_of_step hstep)

theorem settings_of_reachable (h : w.Reachable b settings) :
    w.schedule.tables.settings = settings :=
  (keeps_of_reachable h).left

theorem nodup_of_reachable (h : w.Reachable b settings) :
    w.schedule.tables.entries.keys.Nodup :=
  (keeps_of_reachable h).right List.nodup_nil

/-!
# The capacity sweep of the cache
-/

/-- At or below the mark the capacity sweep does nothing. Above it, it evicts as many entries
as the settings say, of all entries those that were used least recently. -/
theorem sweepCapacity_evicts_least_used (hw : w.Reachable b settings) :
    let t := w.schedule.tables
    let count := evictionCount t.entries.size settings.highWaterMark settings.evictionFraction
    (t.entries.size ≤ settings.highWaterMark → t.sweepCapacity = (0, t)) ∧
    (settings.highWaterMark < t.entries.size →
      1 ≤ count ∧ count ≤ t.entries.size ∧
      ∃ gone, t.Evicts gone count t.sweepCapacity.2 ∧ t.sweepCapacity.1 = count ∧
        ∀ slot ∈ gone, ∀ other ∉ gone, ∀ e e', t.entries.get? slot = some e →
          t.entries.get? other = some e' → e.lastAccess ≤ e'.lastAccess) := by
  intro t count
  have hsettings : t.settings = settings := settings_of_reachable hw
  have hnodup : t.entries.keys.Nodup := nodup_of_reachable hw
  constructor
  · intro hle
    rw [← hsettings] at hle
    exact Tables.sweepCapacity_of_le hle
  · intro hlt
    have hevicts := (Tables.notes_surplus hnodup).sweep hnodup
    have hcount : t.sweepCapacity.1 = count := by
      have hlength := t.length_surplus
      rw [hsettings] at hlength
      change (t.evictAll t.surplus).1 = count
      rw [(Tables.notes_surplus hnodup).evictAll, hlength]
    refine ⟨Tables.one_le_evictionCount _ hlt, Tables.evictionCount_le _ _ _,
      (t.surplus.map Prod.fst).toFinset, hcount ▸ hevicts, hcount, ?_⟩
    intro slot hslot other hother e e' he he'
    exact Tables.le_of_surplus hnodup (List.mem_toFinset.mp hslot)
      (fun hmem => hother (List.mem_toFinset.mpr hmem)) he he'

/-- What one backend leads to can be reached. -/
theorem Leads.reachable {allowed : Set Upkeep}
    (h : (start settings).Leads {b} allowed w) : w.Reachable b settings := by
  refine Relation.ReflTransGen.mono (fun _ _ hturn => ?_) _ _ h
  rcases hturn.step with ⟨b', hb', hstep⟩ | hstep
  · exact Set.mem_singleton_iff.mp hb' ▸ hstep
  · exact hstep b

/-- The slot of the single project. -/
def loneSlot : Slot := ⟨⟨"s"⟩, ⟨"a"⟩⟩

/-- The entry of the single project when it is the first that is stored. -/
def loneEntry : Entry (List Document) :=
  ⟨loneFingerprint "old", ⟨0, ⟨⟨"a"⟩, [⟨⟨"/a.arb"⟩, "old"⟩]⟩⟩, 0⟩

/-- A cache in which the single project has just been stored. -/
theorem leads_lone_entry (allowed : Set Upkeep) (settings : CacheSettings) :
    ∃ w : World (List Document), (start settings).Leads {echo} allowed w ∧
      w.machine.tables.entries = ⟨[(loneSlot, loneEntry)]⟩ ∧ w.machine.tables.clock = 0 ∧
      w.machine.tables.counters = ⟨0, 1, 1, 0⟩ ∧
      (∃ t, w.machine.tasks.get? 0 = some t ∧ t.stage = .clearing (.ok loneEntry.artifact)) ∧
      ∀ k ≠ 0, w.machine.tasks.get? k = none := by
  have hb : echo ∈ ({echo} : Set (Backend (List Document))) := Set.mem_singleton echo
  rcases leads_takeOff (w := .start settings) hb (Machine.free_new _) (print_lone "old") nofun
      nofun with
    ⟨w₁, _, h₁, _, hm₁, _, _⟩
  have ht₁ : w₁.machine.tasks.get? 0 =
      some ⟨lone "old", ⟨"a"⟩, loneFingerprint "old", .fresh⟩ := by
    rw [hm₁]
    rfl
  rcases leads_compiling hb ht₁ rfl rfl (effectiveDependencies_lone _ _) with
    ⟨w₂, h₂, _, htables₂, ht₂, hothers₂⟩
  have hflight₂ : w₂.machine.tables.flights.get? loneSlot = some ⟨0, loneFingerprint "old"⟩ := by
    rw [htables₂, hm₁]
    rfl
  have hrun₂ : (start settings).Leads {echo} allowed w₂ := h₁.leads.trans h₂.leads
  rcases leads_stored hb (gateOpen_of_leads hrun₂) ht₂ rfl rfl hflight₂ with
    ⟨w₃, h₃, _, htables₃, ht₃, hothers₃⟩
  rw [htables₂, hm₁] at htables₃ ht₃
  refine ⟨w₃, hrun₂.trans h₃.leads, ?_, ?_, ?_, ⟨_, ht₃, rfl⟩, fun k hk => ?_⟩
  · rw [htables₃]
    rfl
  · rw [htables₃]
    rfl
  · rw [htables₃]
    rfl
  · rw [hothers₃ k hk, hothers₂ k hk, hm₁]
    exact Table.get?_insert_of_ne _ hk _

/-- A cache with the single project stored at the start and nothing used since. -/
theorem reachable_lone_entry (settings : CacheSettings) (elapsed : Nat) :
    ∃ w : World (List Document), w.Reachable echo settings ∧
      w.schedule.tables.entries = ⟨[(loneSlot, loneEntry)]⟩ ∧
      w.schedule.tables.clock = elapsed := by
  rcases leads_lone_entry sweeps settings with ⟨w, hleads, hentries, hclock, _⟩
  refine ⟨_, hleads.reachable.tail (.tick elapsed), hentries, ?_⟩
  change w.machine.tables.clock + elapsed = elapsed
  rw [hclock]
  exact Nat.zero_add elapsed

/-- For one, with room for no entry the single one is evicted. -/
theorem sweepCapacity_evicts_lone : ∃ w : World (List Document),
    w.Reachable echo { CacheSettings.default with highWaterMark := 0 } ∧
      w.schedule.tables.entries.get? loneSlot = some loneEntry ∧
      w.schedule.tables.sweepCapacity.1 = 1 ∧
      w.schedule.tables.sweepCapacity.2.entries.get? loneSlot = none := by
  rcases reachable_lone_entry { CacheSettings.default with highWaterMark := 0 } 0 with
    ⟨w, hw, hentries, _⟩
  have hstored : w.schedule.tables.entries.get? loneSlot = some loneEntry := by
    rw [hentries]
    rfl
  have hsize : w.schedule.tables.entries.size = 1 := by
    rw [hentries]
    rfl
  have habove : 0 < w.schedule.tables.entries.size := hsize ▸ Nat.one_pos
  rcases (sweepCapacity_evicts_least_used hw).right habove with
    ⟨hpos, hle, gone, hevicts, hcount, _⟩
  rw [← hcount, hsize] at hle
  rw [← hcount] at hpos hevicts
  have hone : w.schedule.tables.sweepCapacity.1 = 1 := Nat.le_antisymm hle hpos
  refine ⟨w, hw, hstored, hone, ?_⟩
  rcases Finset.card_eq_one.mp (hevicts.count.symm.trans hone) with ⟨slot, rfl⟩
  rcases hevicts.stored slot (Finset.mem_singleton_self slot) with ⟨e, he⟩
  rw [hentries] at he
  have hslot : slot = loneSlot := by
    simpa [Table.keys] using Table.mem_keys_iff.mpr ⟨e, he⟩
  rw [hevicts.entries, if_pos (Finset.mem_singleton.mpr hslot.symm)]

end World
end Cache
end Ripple
