import Ripple.Proofs.Cache.Runs
import Ripple.Proofs.Digest.Numbers

/-!
# Sharing compiles

Requests for one fingerprint share a compile for as long as nobody asks for the
project with another fingerprint. Who does takes the slot over, while the first
compile goes on without its flight. The next request for the first fingerprint does
not find it any more, and starts a second compile.
-/

namespace Ripple
namespace Cache

variable {π : Type}

namespace Machine

variable {m m' : Machine π}

/-- A later task has taken the slot over for another fingerprint. -/
def TakenOver (m : Machine π) (k : Nat) (t : Task π) (k' : Nat) : Prop :=
  k < k' ∧ ∃ t', m.tasks.get? k' = some t' ∧ t'.slot = t.slot ∧ t'.fingerprint ≠ t.fingerprint

theorem TakenOver.ages {k k' : Nat} {t t' : Task π} (h : m.TakenOver k t k')
    (hages : m.Ages m') (ht : t.Ages t') : m'.TakenOver k t' k' := by
  rcases h with ⟨hlt, other, hother, hslot, hf⟩
  rcases hages hother with ⟨other', hother', hages'⟩
  refine ⟨hlt, other', hother', ?_, ?_⟩
  · rw [hages'.slot, ht.slot, hslot]
  · rw [hages'.fingerprint, ht.fingerprint]
    exact hf

/-- What keeps two tasks for one slot and fingerprint from running side by side. -/
structure Shared (m : Machine π) : Prop where
  /-- A task that runs has its flight, unless it has been taken over. -/
  aloft : ∀ {k t}, m.tasks.get? k = some t → t.stage.isRunning →
    m.tables.flights.get? t.slot = some ⟨k, t.fingerprint⟩ ∨ ∃ k', m.TakenOver k t k'
  /-- No other task for the same has come before it was. -/
  apart : ∀ {k k' t t'}, m.tasks.get? k = some t → t.stage.isRunning →
    m.tasks.get? k' = some t' → t'.slot = t.slot → t'.fingerprint = t.fingerprint → k < k' →
    ∃ k'' < k', m.TakenOver k t k''

theorem shared_new (settings : CacheSettings) : (new settings : Machine π).Shared :=
  ⟨nofun, nofun⟩

/-- Nothing takes off, and flights are taken out only by their own tasks. -/
theorem Shared.of_ages (h : m.Shared) (hm : m.Formed) (hm' : m'.Formed)
    (hages : m.Ages m') (hticket : m'.tables.nextTicket = m.tables.nextTicket)
    (hflights : ∀ {k t t'}, m.tasks.get? k = some t → m'.tasks.get? k = some t' →
      t'.stage.isRunning → m.tables.flights.get? t.slot = some ⟨k, t.fingerprint⟩ →
      m'.tables.flights.get? t.slot = some ⟨k, t.fingerprint⟩) : m'.Shared := by
  have hback {k : Nat} {t' : Task π} (ht' : m'.tasks.get? k = some t') :
      ∃ t, m.tasks.get? k = some t ∧ t.Ages t' :=
    hages.back hm ht' (hticket ▸ hm'.lt_nextTicket ht')
  constructor
  · intro k t' ht' hrunning
    rcases hback ht' with ⟨t, ht, htages⟩
    rcases h.aloft ht (htages.running hrunning) with hflight | ⟨k', hover⟩
    · left
      rw [htages.slot, htages.fingerprint]
      exact hflights ht ht' hrunning hflight
    · exact .inr ⟨k', hover.ages hages htages⟩
  · intro k k' t t' ht hrunning ht' hslot hf hlt
    rcases hback ht with ⟨t₀, ht₀, htages⟩
    rcases hback ht' with ⟨t₀', ht₀', htages'⟩
    rcases h.apart ht₀ (htages.running hrunning) ht₀'
        (htages'.slot.symm.trans (hslot.trans htages.slot))
        (htages'.fingerprint.symm.trans (hf.trans htages.fingerprint)) hlt with
      ⟨k'', hlt', hover⟩
    exact ⟨k'', hlt', hover.ages hages htages⟩

section TakingOff

variable {new : Task π} {k : Nat} {t : Task π}

/-- Besides the task that takes off there are only those from before. -/
theorem Ages.back_of_ne (hages : m.Ages m') (hm : m.Formed) (hm' : m'.Formed)
    (hticket : m'.tables.nextTicket = m.tables.nextTicket + 1)
    (ht : m'.tasks.get? k = some t) (hk : k ≠ m.tables.nextTicket) :
    ∃ t₀, m.tasks.get? k = some t₀ ∧ t₀.Ages t := by
  apply hages.back hm ht
  have hlt := hm'.lt_nextTicket ht
  rw [hticket] at hlt
  exact Nat.lt_of_le_of_ne (Nat.le_of_lt_succ hlt) hk

/-- The task that takes off has its flight, and the one whose place it takes is for
another fingerprint. -/
theorem Shared.aloft_tookOff (h : m.Shared) (hm : m.Formed) (hm' : m'.Formed)
    (hnew : m'.tasks.get? m.tables.nextTicket = some new) (hages : m.Ages m')
    (hother : ∀ flight, m.tables.flights.get? new.slot = some flight →
      flight.fingerprint ≠ new.fingerprint)
    (hflights : m'.tables.flights =
      m.tables.flights.insert new.slot ⟨m.tables.nextTicket, new.fingerprint⟩)
    (hticket : m'.tables.nextTicket = m.tables.nextTicket + 1)
    (ht : m'.tasks.get? k = some t) (hrunning : t.stage.isRunning) :
    m'.tables.flights.get? t.slot = some ⟨k, t.fingerprint⟩ ∨ ∃ k', m'.TakenOver k t k' := by
  by_cases hk : k = m.tables.nextTicket
  · rw [hk, hnew] at ht
    cases ht
    left
    rw [hflights, Table.get?_insert_self, hk]
  · rcases hages.back_of_ne hm hm' hticket ht hk with ⟨t₀, ht₀, htages⟩
    rcases h.aloft ht₀ (htages.running hrunning) with hflight | ⟨k', hover⟩
    · by_cases hslot : t₀.slot = new.slot
      · right
        refine ⟨m.tables.nextTicket, hm.lt_nextTicket ht₀, new, hnew, ?_, ?_⟩
        · rw [htages.slot, hslot]
        · rw [htages.fingerprint]
          exact (hother _ (hslot ▸ hflight)).symm
      · left
        rw [hflights, htages.slot, htages.fingerprint, Table.get?_insert_of_ne _ hslot]
        exact hflight
    · exact .inr ⟨k', hover.ages hages htages⟩

/-- A task that takes off for what another runs for has not found the flight of that
other one, which must have been taken over before. -/
theorem Shared.apart_tookOff (h : m.Shared) (hm : m.Formed) (hm' : m'.Formed)
    (hnew : m'.tasks.get? m.tables.nextTicket = some new) (hages : m.Ages m')
    (hother : ∀ flight, m.tables.flights.get? new.slot = some flight →
      flight.fingerprint ≠ new.fingerprint)
    (hticket : m'.tables.nextTicket = m.tables.nextTicket + 1)
    (ht : m'.tasks.get? k = some t) (hrunning : t.stage.isRunning) {k' : Nat} {t' : Task π}
    (ht' : m'.tasks.get? k' = some t') (hslot : t'.slot = t.slot)
    (hf : t'.fingerprint = t.fingerprint) (hlt : k < k') :
    ∃ k'' < k', m'.TakenOver k t k'' := by
  have hk : k ≠ m.tables.nextTicket := by
    intro hk
    have hlt' := hm'.lt_nextTicket ht'
    rw [hticket] at hlt'
    exact absurd hlt (Nat.not_lt.mpr (hk ▸ Nat.le_of_lt_succ hlt'))
  rcases hages.back_of_ne hm hm' hticket ht hk with ⟨t₀, ht₀, htages⟩
  have hrunning₀ := htages.running hrunning
  by_cases hk' : k' = m.tables.nextTicket
  · rw [hk', hnew] at ht'
    cases ht'
    rw [htages.slot] at hslot
    rw [htages.fingerprint] at hf
    rcases h.aloft ht₀ hrunning₀ with hflight | ⟨k'', hover⟩
    · exact absurd hf.symm (hother _ (hslot ▸ hflight))
    · rcases hover with ⟨hlt'', other, hget, hrest⟩
      refine ⟨k'', ?_, TakenOver.ages ⟨hlt'', other, hget, hrest⟩ hages htages⟩
      rw [hk']
      exact hm.lt_nextTicket hget
  · rcases hages.back_of_ne hm hm' hticket ht' hk' with ⟨t₀', ht₀', htages'⟩
    rcases h.apart ht₀ hrunning₀ ht₀'
        (htages'.slot.symm.trans (hslot.trans htages.slot))
        (htages'.fingerprint.symm.trans (hf.trans htages.fingerprint)) hlt with
      ⟨k'', hlt', hover⟩
    exact ⟨k'', hlt', hover.ages hages htages⟩

end TakingOff

theorem Shared.effect (h : m.Shared) (hm : m.Orderly) (hm' : m'.Orderly)
    (heffect : m.Effect m') : m'.Shared := by
  cases heffect with
  | steady hages hstored hflights hticket =>
      refine h.of_ages hm.formed hm'.formed hages hticket ?_
      intro k t t' _ _ _ hflight
      rw [hflights]
      exact hflight
  | tookOff hnew hfresh hages hlook hother hstored hflights hticket =>
      constructor
      · exact h.aloft_tookOff hm.formed hm'.formed hnew hages hother hflights hticket
      · intro k k' t t' ht hrunning ht'
        exact h.apart_tookOff hm.formed hm'.formed hnew hages hother hticket ht hrunning ht'
  | stored ht hstage hages hnew htables =>
      refine h.of_ages hm.formed hm'.formed hages (by rw [htables]; rfl) ?_
      intro k t t' _ _ _ hflight
      rw [htables]
      exact hflight
  | @cleared c t o ht hstage hages hnew htables =>
      refine h.of_ages hm.formed hm'.formed hages (by rw [htables]; rfl) ?_
      intro k t₁ t' ht₁ ht' hrunning hflight
      have hne : t₁.slot ≠ t.slot := by
        intro hslot
        have hown := hm.holders ht (by rw [hstage]; rfl)
        rw [← hslot, hflight] at hown
        have hk : k = c := congrArg Flight.ticket (Option.some.inj hown)
        rw [hk, hnew] at ht'
        cases ht'
        cases hrunning
      rw [htables]
      exact (Table.get?_erase_of_ne _ hne).trans hflight

end Machine

/-!
# Joining
-/

namespace World

variable {backends : Set (Backend π)} {settings : CacheSettings} {w : World π}

theorem shared_of_attained (h : w.Attained backends sweeps settings) : w.machine.Shared := by
  induction h with
  | refl => exact Machine.shared_new settings
  | tail hreach hturn ih =>
      have hbefore := orderly_of_attained hreach
      have hturns := hturn.machine
      exact ih.effect hbefore (hbefore.turns hturns.left hturns.right)
        (Machine.effect_of_turns hbefore.formed hturns.left)

/-- Two tasks for one slot and fingerprint run side by side only if another fingerprint
has taken the slot over in between. A request joins the last task that runs for its
fingerprint, unless that has been taken over: then it starts another compile. -/
theorem joins_unless_taken_over (h : w.Attained backends sweeps settings) :
    (∀ {k k' t t'}, w.machine.tasks.get? k = some t → w.machine.tasks.get? k' = some t' →
      t.stage.isRunning → t'.stage.isRunning → t'.slot = t.slot →
      t'.fingerprint = t.fingerprint → k < k' → ∃ k'' < k', w.machine.TakenOver k t k'') ∧
    ∀ {k t}, w.machine.tasks.get? k = some t → t.stage.isRunning →
      (∀ {k' t'}, w.machine.tasks.get? k' = some t' → t'.slot = t.slot →
        t'.fingerprint = t.fingerprint → k' ≤ k) →
      ∀ r : Request π, r.slot = t.slot →
        ((∀ k', ¬ w.machine.TakenOver k t k') →
          r.join t.fingerprint w.machine =
            ({ r with stage := .waiting t.fingerprint k }, w.machine)) ∧
        ((∃ k', w.machine.TakenOver k t k') →
          r.join t.fingerprint w.machine = r.takeOff t.fingerprint w.machine) := by
  have hshared := shared_of_attained h
  have horderly := orderly_of_attained h
  constructor
  · intro k k' t t' ht ht' hrunning _ hslot hf hlt
    exact hshared.apart ht hrunning ht' hslot hf hlt
  · intro k t ht hrunning hlatest r hslot
    constructor
    · intro hover
      rcases hshared.aloft ht hrunning with hflight | ⟨k', hover'⟩
      · simp only [Request.join, hslot, hflight, if_true]
      · exact absurd hover' (hover k')
    · rintro ⟨k', hlt, t', ht', hslot', hf'⟩
      have hlost (flight : Flight)
          (hflight : w.machine.tables.flights.get? t.slot = some flight) :
          flight.fingerprint ≠ t.fingerprint := by
        intro hf
        rcases horderly.flights hflight with ⟨other, hget, hother, hfother, _⟩
        have hle : flight.ticket ≤ k := hlatest hget hother (hfother.trans hf)
        have hge : k' ≤ flight.ticket := horderly.latest hflight ht' hslot'
        omega
      apply Request.join_eq_takeOff
      · intro a hstored
        rw [hslot] at hstored
        have hsettled := horderly.stored_of_latest ht hlatest hstored
        -- A task that runs and is settled holds its slot.
        have hholding : t.stage.isHolding := by
          revert hrunning hsettled
          cases t.stage <;> simp [TaskStage.isRunning, TaskStage.settled?, TaskStage.isHolding]
        exact hlost _ (horderly.holders ht hholding) rfl
      · rw [hslot]
        exact hlost

/-!
# Taken over and back

Clients ask for one project with an old text, a new one, and the old one again.
-/

theorem loneFingerprint_ne : loneFingerprint "new" ≠ loneFingerprint "old" := by
  unfold loneFingerprint Project.fingerprint
  rw [Fingerprint.ofStream_eq]
  decide +kernel

/-- The old text is asked for, the new one, and the old one once more. By then the first
compile has lost its slot, so that there is a second task for the old text. -/
theorem attained_old_again (allowed : Set Upkeep) : ∃ (w : World (List Document))
    (next next' next'' : Except Error (Resolved (List Document)) →
      Plan (List Document) (Reply (List Document))),
    w.Attained {echo} allowed .default ∧
      w.clients =
        [⟨.artifact (lone "old") ⟨"a"⟩,
            .requesting ⟨lone "old", ⟨"a"⟩, .waiting (loneFingerprint "old") 0⟩ next⟩,
          ⟨.artifact (lone "new") ⟨"a"⟩,
            .requesting ⟨lone "new", ⟨"a"⟩, .waiting (loneFingerprint "new") 1⟩ next'⟩,
          ⟨.artifact (lone "old") ⟨"a"⟩,
            .requesting ⟨lone "old", ⟨"a"⟩, .waiting (loneFingerprint "old") 2⟩ next''⟩] ∧
      w.printed = [(lone "old", ⟨"a"⟩), (lone "new", ⟨"a"⟩), (lone "old", ⟨"a"⟩)] ∧
      w.machine.tables.flights.get? ⟨⟨"s"⟩, ⟨"a"⟩⟩ = some ⟨2, loneFingerprint "old"⟩ ∧
      w.machine.tasks.get? 0 = some ⟨lone "old", ⟨"a"⟩, loneFingerprint "old", .fresh⟩ ∧
      w.machine.tasks.get? 2 = some ⟨lone "old", ⟨"a"⟩, loneFingerprint "old", .fresh⟩ := by
  have hb : echo ∈ ({echo} : Set (Backend (List Document))) := Set.mem_singleton echo
  have hfree₀ := Machine.free_new (π := List Document) .default
  rcases leads_takeOff (w := .start .default) hb hfree₀ (print_lone "old") nofun nofun with
    ⟨w₁, next, h₁, hclients₁, hm₁, hprinted₁, _⟩
  have hfree₁ : w₁.machine.Free := by
    rw [hm₁]
    exact Machine.Free.takeOff hfree₀ _ _
  rcases leads_takeOff hb hfree₁ (print_lone "new") (by rw [hm₁]; nofun)
      (by
        intro flight hflight
        rw [hm₁] at hflight
        cases hflight
        exact loneFingerprint_ne.symm) with
    ⟨w₂, next', h₂, hclients₂, hm₂, hprinted₂, _⟩
  have hfree₂ : w₂.machine.Free := by
    rw [hm₂]
    exact Machine.Free.takeOff hfree₁ _ _
  rcases leads_takeOff hb hfree₂ (print_lone "old") (by rw [hm₂, hm₁]; nofun)
      (by
        intro flight hflight
        rw [hm₂, hm₁] at hflight
        cases hflight
        exact loneFingerprint_ne) with
    ⟨w₃, next'', h₃, hclients₃, hm₃, hprinted₃, _⟩
  refine ⟨w₃, next, next', next'', (h₁.leads.trans h₂.leads).trans h₃.leads, ?_, ?_, ?_, ?_, ?_⟩
  · rw [hclients₃, hclients₂, hclients₁, hm₂, hm₁]
    rfl
  · rw [hprinted₃, hprinted₂, hprinted₁]
    rfl
  · rw [hm₃, hm₂, hm₁]
    rfl
  · rw [hm₃, hm₂, hm₁]
    rfl
  · rw [hm₃, hm₂, hm₁]
    rfl

/-- Both compiles of the old text run at once. -/
theorem attained_twice (allowed : Set Upkeep) : ∃ w : World (List Document),
    w.Attained {echo} allowed .default ∧
      (∀ c ∈ w.clients, ∃ ctx id, c.call = .artifact ctx id ∧ ctx.session = ⟨"s"⟩) ∧
      ∃ t t', w.machine.tasks.get? 0 = some t ∧ w.machine.tasks.get? 2 = some t' ∧
        t.stage.isCompiling ∧ t'.stage.isCompiling ∧ t'.slot = t.slot ∧
        t'.fingerprint = t.fingerprint := by
  have hb : echo ∈ ({echo} : Set (Backend (List Document))) := Set.mem_singleton echo
  rcases attained_old_again allowed with
    ⟨w, next, next', next'', h, hclients, _, _, ht₀, ht₂⟩
  rcases leads_compiling hb ht₀ rfl rfl (effectiveDependencies_lone _ _) with
    ⟨w₄, h₄, hclients₄, _, hu, hothers₄⟩
  have ht₂' := (hothers₄ 2 (by decide)).trans ht₂
  rcases leads_compiling hb ht₂' rfl rfl (effectiveDependencies_lone _ _) with
    ⟨w₅, h₅, hclients₅, _, hu', hothers₅⟩
  have hu₅ := (hothers₅ 0 (by decide)).trans hu
  refine ⟨w₅, (h.trans h₄.leads).trans h₅.leads, ?_, _, _, hu₅, hu', rfl, rfl, rfl, rfl⟩
  intro c hc
  rw [hclients₅, hclients₄, hclients] at hc
  simp only [List.mem_cons, List.not_mem_nil, or_false] at hc
  rcases hc with rfl | rfl | rfl
  · exact ⟨_, _, rfl, rfl⟩
  · exact ⟨_, _, rfl, rfl⟩
  · exact ⟨_, _, rfl, rfl⟩

/-- So the second compile of the old text is one that another fingerprint made room for. -/
theorem joins_unless_taken_over_lone : ∃ (w : World (List Document)) (t t' : Task (List Document)),
    w.machine.tasks.get? 0 = some t ∧ w.machine.tasks.get? 2 = some t' ∧
      t'.fingerprint = t.fingerprint ∧ ∃ k < 2, w.machine.TakenOver 0 t k := by
  rcases attained_twice sweeps with ⟨w, h, _, t, t', ht, ht', hrunning, hrunning', hslot, hf⟩
  have hrun {s : TaskStage (List Document)} (hs : s.isCompiling) : s.isRunning := by
    cases s <;> first | rfl | cases hs
  exact ⟨w, t, t', ht, ht', hf,
    (joins_unless_taken_over h).left ht ht' (hrun hrunning) (hrun hrunning') hslot hf Nat.two_pos⟩

/-- Requests of one session, without invalidation, that lead to two compiles at once of
one project with one fingerprint. -/
theorem taken_over_compiles_twice : ∃ w : World (List Document),
    w.Attained {echo} ∅ .default ∧
      (∀ c ∈ w.clients, ∃ ctx id, c.call = .artifact ctx id ∧ ctx.session = ⟨"s"⟩) ∧
      ∃ k k' t t', k ≠ k' ∧ w.machine.tasks.get? k = some t ∧ w.machine.tasks.get? k' = some t' ∧
        t.stage.isCompiling ∧ t'.stage.isCompiling ∧ t'.slot = t.slot ∧
        t'.fingerprint = t.fingerprint := by
  rcases attained_twice ∅ with ⟨w, h, hclients, t, t', ht, ht', hrest⟩
  exact ⟨w, h, hclients, 0, 2, t, t', by decide, ht, ht', hrest⟩

end World
end Cache
end Ripple
