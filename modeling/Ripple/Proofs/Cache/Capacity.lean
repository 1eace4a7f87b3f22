import Mathlib.Data.List.Perm.Subperm
import Ripple.Proofs.Cache.Publishing
import Ripple.Proofs.Cache.Sweeps

/-!
# How far the cache is over its mark

A task stores its artifact in one turn and enforces the capacity in a later one, and many
tasks may be in between. A sweep may take out as little as one entry, but above the mark
it takes out that one. So the cache is over its mark by at most one entry for each task
in between.
-/

namespace Ripple

namespace Table

variable {κ ν : Type} [DecidableEq κ]

theorem size_insert {t : Table κ ν} (hnodup : t.keys.Nodup) (k : κ) (v : ν) :
    (t.insert k v).size = t.size + if t.contains k then 0 else 1 := by
  rw [contains, size, size]
  cases h : t.get? k with
  | none =>
      rw [rows_insert_of_get?_none h, List.length_append]
      rfl
  | some v' =>
      rcases rows_split hnodup h with ⟨before, after, hrows, _, hinsert⟩
      rw [hinsert, hrows, List.length_append, List.length_append]
      rfl

theorem size_erase {t : Table κ ν} (hnodup : t.keys.Nodup) {k : κ} {v : ν}
    (h : t.get? k = some v) : (t.erase k).size + 1 = t.size := by
  have hgone : ∀ k' ∈ ({k} : Finset κ), k' ∈ t.keys := by
    intro k' hk'
    rw [Finset.mem_singleton.mp hk']
    exact mem_keys_iff.mpr ⟨v, h⟩
  have hsize := size_filter_not_mem hnodup hgone
  simpa only [filter, erase, ne_eq, Finset.mem_singleton, Finset.card_singleton] using hsize

end Table

namespace Cache

variable {π : Type}

/-!
# The number of entries
-/

namespace Tables

/-- Where no slot has come to be stored there are no more entries. -/
theorem size_le_of_stored {t t' : Tables π} (hnodup : t'.entries.keys.Nodup)
    (h : ∀ {slot x}, t'.stored? slot = some x → t.stored? slot = some x) :
    t'.entries.size ≤ t.entries.size := by
  have hsubset : t'.entries.keys ⊆ t.entries.keys := by
    intro slot hslot
    rcases Table.mem_keys_iff.mp hslot with ⟨e', he'⟩
    have hstored : t'.stored? slot = some (e'.fingerprint, e'.artifact) := by
      rw [stored?, he']
      rfl
    rcases Option.map_eq_some_iff.mp (h hstored) with ⟨e, he, _⟩
    exact Table.mem_keys_iff.mpr ⟨e, he⟩
  have hle := (List.subperm_of_subset hnodup hsubset).length_le
  rwa [Table.keys, Table.keys, List.length_map, List.length_map] at hle

theorem size_store (t : Tables π) (hnodup : t.entries.keys.Nodup) (slot : Slot)
    (f : Fingerprint) (a : Held (Artifact π)) :
    (t.store slot f a).entries.size =
      t.entries.size + if t.entries.contains slot then 0 else 1 :=
  Table.size_insert hnodup _ _

/-- The capacity sweep takes out at least one entry if there are too many. -/
theorem size_sweepCapacity {t : Tables π} (hnodup : t.entries.keys.Nodup) :
    t.sweepCapacity.2.entries.size ≤ t.settings.highWaterMark ∨
      t.sweepCapacity.2.entries.size + 1 ≤ t.entries.size := by
  by_cases hle : t.entries.size ≤ t.settings.highWaterMark
  · rw [sweepCapacity_of_le hle]
    exact .inl hle
  · have hevicts := (notes_surplus hnodup).sweep hnodup
    have hlength := t.length_surplus
    have hcount := one_le_evictionCount t.settings.evictionFraction (Nat.lt_of_not_le hle)
    have hone : 1 ≤ t.sweepCapacity.1 := by
      change 1 ≤ (t.evictAll t.surplus).1
      rw [(notes_surplus hnodup).evictAll, hlength]
      exact hcount
    have hsize : t.sweepCapacity.2.entries.size + t.sweepCapacity.1 = t.entries.size :=
      hevicts.size
    exact .inr (by omega)

end Tables

/-!
# Tasks that last
-/

namespace Machine

/-- No task has come to its end. -/
def Lasts (m m' : Machine π) : Prop :=
  ∀ ⦃k t⦄, m.tasks.get? k = some t → ¬ t.stage.isEnded →
    ∃ t', m'.tasks.get? k = some t' ∧ ¬ t'.stage.isEnded

variable {m m' : Machine π}

theorem Adds.lasts (h : m.Adds m') : m.Lasts m' :=
  fun _ t ht hstage => ⟨t, h ht, hstage⟩

theorem Lasts.setStage (h : m.Lasts m') (ticket : Nat) {s : TaskStage π} (hs : ¬ s.isEnded) :
    m.Lasts (m'.setStage ticket s) := by
  intro k t ht hstage
  rcases h ht hstage with ⟨t', ht', hstage'⟩
  rw [get?_setStage, ht']
  by_cases hk : k = ticket
  · exact ⟨_, if_pos hk, hs⟩
  · exact ⟨t', if_neg hk, hstage'⟩

/-- A task comes to its end by its sweep. -/
theorem Turns.lasts {backends : Set (Backend π)} {allowed : Set Upkeep}
    (h : m.Turns backends allowed m') (hformed : m.Formed) :
    m.Lasts m' ∨ ∃ k o, m' =
      (m.updateTables fun tables => tables.sweepCapacity.2).setStage k (.ended o) := by
  have hsame {m₁ : Machine π} (htasks : m₁.tasks = m.tasks) : m.Lasts m₁ :=
    (adds_of_tasks_eq htasks).lasts
  cases h with
  | @task b gateOpen k t m' hb ht hmove =>
      cases hmove with
      | swept hstage => exact .inr ⟨k, _, rfl⟩
      | stepped hstage hactive hrequest =>
          have hadds := (Request.formed_of_moves hformed hrequest).right
          exact .inl (hadds.lasts.setStage k Bool.false_ne_true)
      | answered => exact .inl ((hsame (by rfl)).setStage k Bool.false_ne_true)
      | _ => exact .inl ((hsame (by rfl)).setStage k Bool.false_ne_true)
  | request hb hmove => exact .inl (Request.formed_of_moves hformed hmove).right.lasts
  | upkeep hu => exact .inl (hsame rfl)
  | aside htasks => exact .inl (hsame htasks)

end Machine

/-!
# Settings and keys of a chronicle
-/

theorem World.keeps_of_turn {backends : Set (Backend π)} {allowed : Set Upkeep} {w w' : World π}
    (h : w.Turn backends allowed w') : w.machine.tables.Keeps w'.machine.tables := by
  cases h with
  | work hb hwork hspares => exact keeps_of_step (.work hwork)
  | aside hb hstep hmachine => exact keeps_of_step hstep
  | upkeep hu hspares => exact Upkeep.keeps _ _
  | tick elapsed => exact ⟨rfl, id⟩

theorem World.keeps_of_leads {backends : Set (Backend π)} {allowed : Set Upkeep} {w w' : World π}
    (h : w.Leads backends allowed w') : w.machine.tables.Keeps w'.machine.tables := by
  induction h with
  | refl => exact .refl _
  | tail _ hturn ih => exact ih.trans (keeps_of_turn hturn)

theorem Scope.keeps_dropFlights (sc : Scope) (t : Tables π) : t.Keeps (sc.dropFlights t) := by
  cases sc <;> exact ⟨rfl, id⟩

theorem Scope.keeps_dropEntries (sc : Scope) (t : Tables π) : t.Keeps (sc.dropEntries t) := by
  cases sc with
  | only slot => exact t.keeps_dropEntry slot
  | session s => exact ⟨rfl, fun hnodup => Table.nodup_keys_filter hnodup _⟩

theorem Scope.keeps_dropListings (sc : Scope) (t : Tables π) : t.Keeps (sc.dropListings t) := by
  cases sc <;> exact ⟨rfl, id⟩

namespace Chronicle

variable {backends : Set (Backend π)} {settings : CacheSettings} {c c' : Chronicle π}

theorem keeps_of_step (h : c.Step backends c') :
    c.machine.tables.Keeps c'.machine.tables := by
  cases h with
  | turn hturn => exact World.keeps_of_turn hturn
  | publishes hturn => exact World.keeps_of_turn hturn
  | begins => exact .refl _
  | @grounds before after sc => exact sc.keeps_dropFlights _
  | @empties before after sc => exact sc.keeps_dropEntries _
  | @finishes before after sc => exact sc.keeps_dropListings _

theorem keeps_of_recorded (h : c.Recorded backends settings) :
    (Tables.new settings).Keeps c.machine.tables := by
  induction h with
  | refl => exact .refl _
  | tail _ hstep ih => exact ih.trans (keeps_of_step hstep)

/-!
# Tasks that are still to enforce the capacity
-/

/-- The tasks that have stored their artifacts and are still to enforce the capacity. -/
def pending (c : Chronicle π) : List Nat :=
  (c.machine.tasks.filter fun k t => k ∈ c.published.map Prod.snd ∧ ¬ t.stage.isEnded).keys

theorem nodup_pending (h : c.machine.Formed) : c.pending.Nodup :=
  Table.nodup_keys_filter h.nodup _

theorem mem_pending_iff (h : c.machine.Formed) {k : Nat} :
    k ∈ c.pending ↔ k ∈ c.published.map Prod.snd ∧
      ∃ t, c.machine.tasks.get? k = some t ∧ ¬ t.stage.isEnded := by
  constructor
  · intro hk
    rcases List.mem_map.mp hk with ⟨row, hrow, rfl⟩
    rcases List.mem_filter.mp hrow with ⟨hmem, hkeep⟩
    rcases of_decide_eq_true hkeep with ⟨hpublished, hstage⟩
    exact ⟨hpublished, row.2, Table.get?_of_mem_rows h.nodup hmem, hstage⟩
  · rintro ⟨hpublished, t, ht, hstage⟩
    refine List.mem_map.mpr ⟨(k, t), List.mem_filter.mpr ⟨Table.mem_rows_of_get? ht, ?_⟩, rfl⟩
    exact decide_eq_true ⟨hpublished, hstage⟩

/-- Whoever is about to store has not published yet. -/
theorem Faithful.not_published (h : c.Faithful) {k : Nat} {t : Task π}
    (ht : c.machine.tasks.get? k = some t) (hstoring : t.stage.isStoring) :
    k ∉ c.published.map Prod.snd := by
  intro hk
  rcases List.mem_map.mp hk with ⟨⟨slot, other⟩, hpublished, rfl⟩
  have htickets : other ∈ c.tickets slot :=
    List.mem_map.mpr ⟨(slot, other), List.mem_filter.mpr ⟨hpublished, decide_eq_true rfl⟩, rfl⟩
  rcases h.publishers htickets with ⟨t', o, ht', _, ho⟩
  rw [ht] at ht'
  cases ht'
  rcases TaskStage.isStoring_iff.mp hstoring with ⟨a, hstage⟩
  rw [hstage] at ho
  cases ho

/-!
# The bound
-/

/-- The entries above the mark are made up for by sweeps to come. -/
def Bounded (c : Chronicle π) : Prop :=
  c.machine.tables.entries.size ≤ c.machine.tables.settings.highWaterMark + c.pending.length

theorem Bounded.of_length_le (h : c.Bounded)
    (hsettings : c'.machine.tables.settings = c.machine.tables.settings)
    (hsize : c'.machine.tables.entries.size ≤ c.machine.tables.entries.size)
    (hpending : c.pending.length ≤ c'.pending.length) : c'.Bounded := by
  unfold Bounded at h ⊢
  rw [hsettings]
  omega

/-- In a turn in which nothing is stored at most one task enforces the capacity. -/
theorem Bounded.turn (h : c.Bounded) (hfaithful : c.Faithful)
    (hnodup : c.machine.tables.entries.keys.Nodup) {w : World π}
    (hturn : c.world.Turn backends sweeps w)
    (hstoring : ∀ {k t}, c.machine.tasks.get? k = some t → t.stage.isStoring →
      w.machine.tasks.get? k = some t) : ({ c with world := w } : Chronicle π).Bounded := by
  let c' : Chronicle π := { c with world := w }
  have hformed := hfaithful.orderly.formed
  have hformed' := (hfaithful.turn hturn hstoring).orderly.formed
  have hkeeps := World.keeps_of_turn hturn
  rcases hturn.machine.left.lasts hformed with hlasts | ⟨k, o, hw⟩
  · refine h.of_length_le hkeeps.left ?_ ?_
    · refine Tables.size_le_of_stored (hkeeps.right hnodup) ?_
      cases Machine.effect_of_turns hformed hturn.machine.left with
      | steady hages hstored => exact hstored
      | tookOff hnew hfresh hages hlook hother hstored => exact fun hx => hstored ▸ hx
      | stored ht hstage hages hnew =>
          have hstays := hstoring ht (by rw [hstage]; rfl)
          rw [hnew] at hstays
          have hsame := congrArg Task.stage (Option.some.inj hstays)
          rw [hstage] at hsame
          cases hsame
      | cleared ht hstage hages hnew htables =>
          intro slot x hx
          rw [htables] at hx
          exact hx
    · refine (List.subperm_of_subset (nodup_pending hformed) ?_).length_le
      intro k hk
      rcases (mem_pending_iff hformed).mp hk with ⟨hpublished, t, ht, hstage⟩
      exact (mem_pending_iff hformed').mpr ⟨hpublished, hlasts ht hstage⟩
  · -- The task that enforces the capacity drops out, and so does an entry above the mark.
    have hothers : c.pending.erase k ⊆ c'.pending := by
      intro k' hk'
      rcases (List.Nodup.mem_erase_iff (nodup_pending hformed)).mp hk' with ⟨hne, hmem⟩
      rcases (mem_pending_iff hformed).mp hmem with ⟨hpublished, t, ht, hstage⟩
      refine (mem_pending_iff hformed').mpr ⟨hpublished, t, ?_, hstage⟩
      change w.machine.tasks.get? k' = some t
      rw [hw, Machine.get?_setStage, if_neg hne]
      exact ht
    have hlength := (List.subperm_of_subset ((nodup_pending hformed).erase k) hothers).length_le
    have herase : (c.pending.erase k).length = _ := List.length_erase
    have hsize : w.machine.tables.entries.size =
        c.machine.tables.sweepCapacity.2.entries.size := by
      rw [hw]
      rfl
    have hsettings : w.machine.tables.settings = c.machine.tables.settings := hkeeps.left
    have hsweep := Tables.size_sweepCapacity hnodup
    change w.machine.tables.entries.size ≤
      w.machine.tables.settings.highWaterMark + c'.pending.length
    unfold Bounded at h
    rw [hsize, hsettings]
    split at herase <;> omega

/-- A task that has stored its artifact has the capacity still to enforce. -/
theorem Bounded.publish (h : c.Bounded) (hfaithful : c.Faithful)
    (hnodup : c.machine.tables.entries.keys.Nodup) {w : World π} {k : Nat} {t : Task π}
    {a : Held (Artifact π)} (ht : c.machine.tasks.get? k = some t)
    (hstage : t.stage = .storing a) (hformed' : w.machine.Formed)
    (hw : w.machine =
      (c.machine.updateTables fun tables => tables.store t.slot t.fingerprint a).setStage k
        (.clearing (.ok a))) :
    ({ c with world := w, published := c.published ++ [(t.slot, k)] } : Chronicle π).Bounded := by
  let c' : Chronicle π := { c with world := w, published := c.published ++ [(t.slot, k)] }
  have hformed := hfaithful.orderly.formed
  have hlasts : c.machine.Lasts w.machine := by
    rw [hw]
    exact (Machine.adds_of_tasks_eq rfl).lasts.setStage k Bool.false_ne_true
  have hpublished (k' : Nat) : k' ∈ c'.published.map Prod.snd ↔
      k' ∈ c.published.map Prod.snd ∨ k' = k := by
    simp [c']
  have hmore : k :: c.pending ⊆ c'.pending := by
    intro k' hk'
    refine (mem_pending_iff hformed').mpr ?_
    rcases List.mem_cons.mp hk' with rfl | hk'
    · exact ⟨(hpublished k').mpr (.inr rfl), hlasts ht (by rw [hstage]; exact Bool.false_ne_true)⟩
    · rcases (mem_pending_iff hformed).mp hk' with ⟨hbefore, t', ht', hstage'⟩
      exact ⟨(hpublished k').mpr (.inl hbefore), hlasts ht' hstage'⟩
  have hfresh : (k :: c.pending).Nodup := by
    refine List.nodup_cons.mpr ⟨fun hk => ?_, nodup_pending hformed⟩
    exact hfaithful.not_published ht (by rw [hstage]; rfl) ((mem_pending_iff hformed).mp hk).left
  have hlength := (List.subperm_of_subset hfresh hmore).length_le
  have hsize : w.machine.tables.entries.size ≤ c.machine.tables.entries.size + 1 := by
    have hstore := c.machine.tables.size_store hnodup t.slot t.fingerprint a
    rw [hw]
    change (c.machine.tables.store t.slot t.fingerprint a).entries.size ≤ _
    split at hstore <;> omega
  have hsettings : w.machine.tables.settings = c.machine.tables.settings := by
    rw [hw]
    rfl
  change w.machine.tables.entries.size ≤
    w.machine.tables.settings.highWaterMark + c'.pending.length
  rw [List.length_cons] at hlength
  unfold Bounded at h
  rw [hsettings]
  omega

theorem Bounded.step (h : c.Bounded) (hfaithful : c.Faithful)
    (hnodup : c.machine.tables.entries.keys.Nodup) (hstep : c.Step backends c') : c'.Bounded := by
  cases hstep with
  | turn hturn hstoring => exact h.turn hfaithful hnodup hturn hstoring
  | publishes hturn ht hstoring ht' hstored =>
      have hformed' := (hfaithful.orderly.turns hturn.machine.left hturn.machine.right).formed
      rcases TaskStage.isStoring_iff.mp hstoring with ⟨a, hstage⟩
      rcases hturn.machine.left.of_storing hfaithful.orderly.formed ht hstage with hstays | hw
      · rw [ht'] at hstays
        cases hstays
        exact absurd hstoring hstored
      · exact h.publish hfaithful hnodup ht hstage hformed' hw
  | begins hscopes => exact h
  | @grounds before after sc rest hunderway hspares =>
      have hkeeps := sc.keeps_dropFlights c.machine.tables
      refine h.of_length_le hkeeps.left ?_ (Nat.le_refl _)
      exact Tables.size_le_of_stored (hkeeps.right hnodup) (sc.within_dropFlights _).stored?
  | @empties before after sc rest mark hunderway =>
      have hkeeps := sc.keeps_dropEntries c.machine.tables
      refine h.of_length_le hkeeps.left ?_ (Nat.le_refl _)
      exact Tables.size_le_of_stored (hkeeps.right hnodup) (sc.within_dropEntries _).stored?
  | @finishes before after sc rest mark hunderway =>
      have hkeeps := sc.keeps_dropListings c.machine.tables
      refine h.of_length_le hkeeps.left ?_ (Nat.le_refl _)
      exact Tables.size_le_of_stored (hkeeps.right hnodup) (sc.within_dropListings _).stored?

theorem bounded_of_recorded (h : c.Recorded backends settings) : c.Bounded := by
  induction h with
  | refl => exact Nat.zero_le _
  | tail hrecorded hstep ih =>
      have hnodup := (keeps_of_recorded hrecorded).right List.nodup_nil
      exact ih.step (faithful_of_recorded hrecorded) hnodup hstep

/-- The cache is over its mark by at most one entry for each task that has stored its artifact
and is still to enforce the capacity. While no task is under way it is not over it. -/
theorem size_le_mark (h : c.Recorded backends settings) :
    c.machine.tables.entries.size ≤ settings.highWaterMark + c.pending.length ∧
      ((∀ k t, c.machine.tasks.get? k = some t → t.stage.isEnded) →
        c.machine.tables.entries.size ≤ settings.highWaterMark) := by
  have hsettings : c.machine.tables.settings = settings := (keeps_of_recorded h).left
  have hbounded := bounded_of_recorded h
  unfold Bounded at hbounded
  rw [hsettings] at hbounded
  refine ⟨hbounded, fun hended => ?_⟩
  have hnone : c.pending = [] := by
    refine List.eq_nil_iff_forall_not_mem.mpr fun k hk => ?_
    rcases (mem_pending_iff (faithful_of_recorded h).orderly.formed).mp hk with
      ⟨_, t, ht, hstage⟩
    exact hstage (hended k t ht)
  rwa [hnone] at hbounded

/-- For one, with room for no entry the single one is there until its task has swept. -/
theorem size_le_mark_lone : ∃ c : Chronicle (List Document),
    c.Recorded {echo} { CacheSettings.default with highWaterMark := 0 } ∧
      c.machine.tables.entries.size = 1 ∧ 1 ≤ c.pending.length := by
  rcases World.leads_lone_entry sweeps { CacheSettings.default with highWaterMark := 0 } with
    ⟨w, hleads, hentries, _⟩
  have hstart : (start { CacheSettings.default with highWaterMark := 0 }).Recorded {echo}
    { CacheSettings.default with highWaterMark := 0 } := .refl
  rcases hstart.leads hleads with ⟨published, hrecorded⟩
  have hsize : w.machine.tables.entries.size = 1 := by
    rw [hentries]
    rfl
  refine ⟨_, hrecorded, hsize, ?_⟩
  have hbound := (size_le_mark hrecorded).left
  change w.machine.tables.entries.size ≤ 0 + _ at hbound
  rwa [hsize, Nat.zero_add] at hbound

end Chronicle
end Cache
end Ripple
