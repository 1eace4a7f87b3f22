import Ripple.Engine.Lifecycle
import Ripple.Proofs.Cache.Sweeps

/-!
# Ages

A greatest age is a duration, whose seconds fit into a word. The age sweep compares ages
with its milliseconds, of which it keeps as many as fit into a word. Where they all do,
exactly the entries that are older are evicted. Where they do not, the sweep goes by a
shorter duration, and an entry is safe only if it is not older than that one.
-/

namespace Ripple

structure Duration where
  seconds : Nat
  nanoseconds : Nat
  seconds_lt : seconds < Number.wordLimit
  nanoseconds_lt : nanoseconds < 1000000000

namespace Duration

def ofSeconds (seconds : Nat) (h : seconds < Number.wordLimit) : Duration :=
  ⟨seconds, 0, h, by decide⟩

/-- Its whole length, in nanoseconds. -/
def length (d : Duration) : Nat := d.seconds * 1000000000 + d.nanoseconds

/-- Whole milliseconds. -/
def milliseconds (d : Duration) : Nat := d.seconds * 1000 + d.nanoseconds / 1000000

/-- So many milliseconds are longer than the duration. -/
def Passed (d : Duration) (time : Nat) : Prop := d.length < time * 1000000

theorem milliseconds_eq (d : Duration) : d.milliseconds = d.length / 1000000 := by
  unfold milliseconds length
  omega

theorem passed_iff {d : Duration} {time : Nat} : d.Passed time ↔ d.milliseconds < time := by
  rw [milliseconds_eq, Nat.div_lt_iff_lt_mul (by decide), Passed]

/-- The greatest age of a configuration. -/
theorem milliseconds_ofSeconds (seconds : Nat) (h : seconds < Number.wordLimit) :
    (ofSeconds seconds h).milliseconds = Engine.milliseconds seconds := by
  rw [milliseconds, ofSeconds, Nat.zero_div, Nat.add_zero, Engine.milliseconds]

theorem milliseconds_mono {d d' : Duration} (h : d.length ≤ d'.length) :
    d.milliseconds ≤ d'.milliseconds := by
  rw [milliseconds_eq, milliseconds_eq]
  exact Nat.div_le_div_right h

end Duration

namespace Cache

variable {π : Type}

namespace Tables

/-- The time since the last use. -/
def age (t : Tables π) (e : Entry π) : Nat := t.clock - e.lastAccess

/-- The age sweep evicts the entries that are older than the duration, and nothing else. -/
def Expires (t : Tables π) (d : Duration) : Prop :=
  ∃ gone, t.Evicts gone (t.sweepExpired d.milliseconds).1 (t.sweepExpired d.milliseconds).2 ∧
    ∀ slot, slot ∈ gone ↔ ∃ e, t.entries.get? slot = some e ∧ d.Passed (t.age e)

/-- No entry has an age that only what is left of the duration takes for too old. -/
def Clear (t : Tables π) (d : Duration) : Prop :=
  ∀ slot e, t.entries.get? slot = some e →
    d.milliseconds % ageLimit < t.age e → d.Passed (t.age e)

theorem clear_of_lt {t : Tables π} {d : Duration} (h : d.milliseconds < ageLimit) :
    t.Clear d := by
  intro slot e _ hold
  rw [Nat.mod_eq_of_lt h] at hold
  exact Duration.passed_iff.mpr hold

/-- What the age sweep evicts, whatever the age. -/
theorem sweepExpired_evicts {t : Tables π} (hnodup : t.entries.keys.Nodup) (maxAge : Nat) :
    ∃ gone, t.Evicts gone (t.sweepExpired maxAge).1 (t.sweepExpired maxAge).2 ∧
      ∀ slot, slot ∈ gone ↔
        ∃ e, t.entries.get? slot = some e ∧ maxAge % ageLimit < t.age e := by
  refine ⟨_, (notes_of_subperm hnodup List.filter_sublist.subperm).sweep hnodup, ?_⟩
  intro slot
  simp only [List.mem_toFinset, List.mem_map, List.mem_filter, mem_uses_iff hnodup,
    decide_eq_true_eq]
  constructor
  · rintro ⟨use, ⟨⟨e, he, hseen⟩, hold⟩, rfl⟩
    rw [← hseen] at hold
    exact ⟨e, he, hold⟩
  · rintro ⟨e, he, hold⟩
    exact ⟨(slot, e.lastAccess), ⟨⟨e, he, rfl⟩, hold⟩, rfl⟩

/-- An entry survives the age sweep if it is young enough. -/
theorem get?_sweepExpired {t : Tables π} (hnodup : t.entries.keys.Nodup) (maxAge : Nat)
    {slot : Slot} {e : Entry π} :
    (t.sweepExpired maxAge).2.entries.get? slot = some e ↔
      t.entries.get? slot = some e ∧ t.age e ≤ maxAge % ageLimit := by
  rcases sweepExpired_evicts hnodup maxAge with ⟨gone, hevicts, hgone⟩
  rw [hevicts.entries]
  constructor
  · intro h
    by_cases hslot : slot ∈ gone
    · rw [if_pos hslot] at h
      cases h
    · rw [if_neg hslot] at h
      exact ⟨h, Nat.not_lt.mp fun hold => hslot ((hgone slot).mpr ⟨e, h, hold⟩)⟩
  · rintro ⟨he, hyoung⟩
    rw [if_neg]
    · exact he
    · intro hslot
      rcases (hgone slot).mp hslot with ⟨e', he', hold⟩
      rw [he] at he'
      cases he'
      omega

/-- The age sweep goes by the whole duration where it makes no difference that it does not. -/
theorem expires_iff_clear {t : Tables π} (hnodup : t.entries.keys.Nodup) {d : Duration} :
    t.Expires d ↔ t.Clear d := by
  constructor
  · rintro ⟨gone, hevicts, hgone⟩ slot e he hold
    have hlost : slot ∈ gone := by
      by_contra hslot
      have hkept := hevicts.entries slot
      rw [if_neg hslot, he, get?_sweepExpired hnodup] at hkept
      omega
    rcases (hgone slot).mp hlost with ⟨e', he', hpassed⟩
    rw [he] at he'
    cases he'
    exact hpassed
  · intro hclear
    rcases sweepExpired_evicts hnodup d.milliseconds with ⟨gone, hevicts, hgone⟩
    refine ⟨gone, hevicts, fun slot => (hgone slot).trans ?_⟩
    constructor
    · rintro ⟨e, he, hold⟩
      exact ⟨e, he, hclear slot e he hold⟩
    · rintro ⟨e, he, hpassed⟩
      exact ⟨e, he, (Nat.mod_le _ _).trans_lt (Duration.passed_iff.mp hpassed)⟩

end Tables

namespace World

variable {b : Backend π} {settings : CacheSettings} {w : World π}

/-- The age sweep evicts the entries that are older than what a word keeps of the duration.
These are the ones that are older than the duration exactly if the cut makes no difference to
any entry, and so whenever there is none. Then a longer duration spares what a shorter one
does. -/
theorem sweepExpired_exact_iff (hw : w.Reachable b settings) (d : Duration) :
    let t := w.schedule.tables
    (∃ gone, t.Evicts gone (t.sweepExpired d.milliseconds).1 (t.sweepExpired d.milliseconds).2 ∧
      ∀ slot, slot ∈ gone ↔ ∃ e, t.entries.get? slot = some e ∧
        d.milliseconds % Tables.ageLimit < t.age e) ∧
    (t.Expires d ↔ t.Clear d) ∧
    (d.milliseconds < Tables.ageLimit → t.Expires d) ∧
    ∀ d' : Duration, d'.length ≤ d.length → d.milliseconds < Tables.ageLimit → ∀ slot e,
      (t.sweepExpired d'.milliseconds).2.entries.get? slot = some e →
        (t.sweepExpired d.milliseconds).2.entries.get? slot = some e := by
  intro t
  have hnodup : t.entries.keys.Nodup := nodup_of_reachable hw
  refine ⟨Tables.sweepExpired_evicts hnodup _, Tables.expires_iff_clear hnodup, ?_, ?_⟩
  · intro hfits
    exact (Tables.expires_iff_clear hnodup).mpr (Tables.clear_of_lt hfits)
  · intro d' hle hfits slot e hkept
    have hless := Duration.milliseconds_mono hle
    rw [Tables.get?_sweepExpired hnodup] at hkept ⊢
    rw [Nat.mod_eq_of_lt (hless.trans_lt hfits)] at hkept
    rw [Nat.mod_eq_of_lt hfits]
    exact ⟨hkept.left, hkept.right.trans hless⟩

/-- A cache with the single project stored some time ago and not used since. -/
theorem reachable_lone_aged (settings : CacheSettings) (age : Nat) :
    ∃ w : World (List Document), w.Reachable echo settings ∧
      w.schedule.tables.entries.get? loneSlot = some loneEntry ∧
      w.schedule.tables.age loneEntry = age := by
  rcases reachable_lone_entry settings age with ⟨w, hw, hentries, hclock⟩
  refine ⟨w, hw, ?_, ?_⟩
  · rw [hentries]
    rfl
  · rw [Tables.age, hclock]
    rfl

/-- For one, an entry that has not been used for a minute is too old for a greatest age of
thirty seconds, but not for one of thirty minutes. -/
theorem sweepExpired_exact_lone : ∃ w : World (List Document), w.Reachable echo .default ∧
    w.schedule.tables.Expires (.ofSeconds 30 (by decide)) ∧
      (w.schedule.tables.sweepExpired 30000).2.entries.get? loneSlot = none ∧
      (w.schedule.tables.sweepExpired 1800000).2.entries.get? loneSlot = some loneEntry := by
  rcases reachable_lone_aged .default 60000 with ⟨w, hw, hstored, hage⟩
  have hexpires :=
    (sweepExpired_exact_iff hw (.ofSeconds 30 (by decide))).right.right.left (by decide)
  refine ⟨w, hw, hexpires, ?_, ?_⟩
  · rcases hexpires with ⟨gone, hevicts, hgone⟩
    change (w.schedule.tables.sweepExpired
      (Duration.ofSeconds 30 (by decide)).milliseconds).2.entries.get? loneSlot = none
    rw [hevicts.entries, if_pos]
    refine (hgone loneSlot).mpr ⟨loneEntry, hstored, ?_⟩
    rw [Duration.passed_iff, hage]
    decide
  · rw [Tables.get?_sweepExpired (nodup_of_reachable hw), hage]
    exact ⟨hstored, by decide⟩

/-- A duration whose milliseconds do not fit into a word sooner or later lets an entry go
that is not older. -/
theorem expires_always_iff {d : Duration} :
    (∀ w : World (List Document), w.Reachable echo settings → w.schedule.tables.Expires d) ↔
      d.milliseconds < Tables.ageLimit := by
  constructor
  · intro h
    by_contra hfits
    have hleft := Nat.mod_lt d.milliseconds (y := Tables.ageLimit) (by decide)
    -- The entry is one millisecond older than what is left of the duration.
    rcases reachable_lone_aged settings (d.milliseconds % Tables.ageLimit + 1) with
      ⟨w, hw, hstored, hage⟩
    have hclear := (Tables.expires_iff_clear (nodup_of_reachable hw)).mp (h w hw)
    have hpassed := hclear loneSlot loneEntry hstored (hage ▸ Nat.lt_succ_self _)
    rw [Duration.passed_iff, hage] at hpassed
    omega
  · intro hfits w hw
    exact (Tables.expires_iff_clear (nodup_of_reachable hw)).mpr (Tables.clear_of_lt hfits)

/-- A configuration whose entries are to be kept for longer than there is time. -/
def patient : Config :=
  { Config.default with cache := { CacheSettings.default with maxEntryAge := 2 ^ 61 } }

/-- The configuration is valid, but nothing is left of its greatest age: an entry that has
not been used for a minute is evicted. A greatest age of half an hour spares it. -/
theorem sweepExpired_forgets_patience : patient.validate = .ok patient ∧
    ∃ (hword : patient.cache.maxEntryAge < Number.wordLimit) (w : World (List Document)),
      w.Reachable echo patient.cache ∧
      w.schedule.tables.entries.get? loneSlot = some loneEntry ∧
      w.schedule.tables.age loneEntry = 60000 ∧
      (w.schedule.tables.sweepExpired
        (Engine.milliseconds patient.cache.maxEntryAge)).2.entries.get? loneSlot = none ∧
      (w.schedule.tables.sweepExpired
        (Engine.milliseconds 1800)).2.entries.get? loneSlot = some loneEntry ∧
      ¬ w.schedule.tables.Expires (.ofSeconds patient.cache.maxEntryAge hword) := by
  have hvalid : patient.fault? = none := by decide
  have hword : patient.cache.maxEntryAge < Number.wordLimit := by decide
  have hnothing : Engine.milliseconds patient.cache.maxEntryAge % Tables.ageLimit = 0 := by
    decide
  rcases reachable_lone_aged patient.cache 60000 with ⟨w, hw, hstored, hage⟩
  have hnodup := nodup_of_reachable hw
  refine ⟨by rw [Config.validate, hvalid], hword, w, hw, hstored, hage, ?_, ?_, ?_⟩
  · rcases Tables.sweepExpired_evicts hnodup (Engine.milliseconds patient.cache.maxEntryAge) with
      ⟨gone, hevicts, hgone⟩
    rw [hevicts.entries, if_pos]
    refine (hgone loneSlot).mpr ⟨loneEntry, hstored, ?_⟩
    rw [hnothing, hage]
    decide
  · rw [Tables.get?_sweepExpired hnodup, hage]
    exact ⟨hstored, by decide⟩
  · intro hexpires
    have hclear := (Tables.expires_iff_clear hnodup).mp hexpires loneSlot loneEntry hstored
    rw [Duration.passed_iff, Duration.milliseconds_ofSeconds, hnothing, hage] at hclear
    exact absurd (hclear (by decide)) (by decide)

end World
end Cache
end Ripple
