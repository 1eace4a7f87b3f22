import Ripple.Proofs.Cache.Flights

/-!
# Effects of turns

With sweeps as the only upkeep, a turn does one of four things to tasks, flights and
entries: a task takes off, stores its artifact, takes its flight out, or nothing of
that kind happens.
-/

namespace Ripple
namespace Cache

variable {π : Type}

/-!
# Tasks grow older
-/

/-- The task later on. -/
structure Task.Ages (t t' : Task π) : Prop where
  slot : t'.slot = t.slot
  fingerprint : t'.fingerprint = t.fingerprint
  running : t'.stage.isRunning → t.stage.isRunning
  settled : ∀ {o}, t.stage.settled? = some o → t'.stage.settled? = some o

theorem Task.Ages.refl (t : Task π) : t.Ages t :=
  ⟨rfl, rfl, id, id⟩

namespace Machine

/-- Every task is still there, and none is further back. -/
def Ages (m m' : Machine π) : Prop :=
  ∀ ⦃k t⦄, m.tasks.get? k = some t → ∃ t', m'.tasks.get? k = some t' ∧ t.Ages t'

variable {m m' m₁ : Machine π}

theorem Adds.ages (h : m.Adds m') : m.Ages m' :=
  fun _ t ht => ⟨t, h ht, .refl t⟩

theorem Ages.back (h : m.Ages m') (hm : m.Formed) {k : Nat} {t' : Task π}
    (ht' : m'.tasks.get? k = some t') (hk : k < m.tables.nextTicket) :
    ∃ t, m.tasks.get? k = some t ∧ t.Ages t' := by
  rcases Table.mem_keys_iff.mp (hm.tickets.mpr hk) with ⟨t, ht⟩
  rcases h ht with ⟨t'', ht'', hages⟩
  rw [ht'] at ht''
  cases ht''
  exact ⟨t, ht, hages⟩

/-- One task goes on. -/
theorem ages_setStage (hadds : m.Adds m₁) {ticket : Nat} {t : Task π} {s : TaskStage π}
    (ht : m.tasks.get? ticket = some t) (hrunning : s.isRunning → t.stage.isRunning)
    (hsettled : ∀ {o}, t.stage.settled? = some o → s.settled? = some o) :
    m.Ages (m₁.setStage ticket s) := by
  intro k t₀ ht₀
  rw [get?_setStage, hadds ht₀]
  by_cases hk : k = ticket
  · rw [if_pos hk]
    rw [hk, ht] at ht₀
    cases ht₀
    exact ⟨_, rfl, rfl, rfl, hrunning, hsettled⟩
  · rw [if_neg hk]
    exact ⟨t₀, rfl, .refl t₀⟩

/-!
# Effects
-/

inductive Effect (m m' : Machine π) : Prop where
  /-- Nothing takes off, and at most something stored is removed. -/
  | steady (hages : m.Ages m')
      (hstored : ∀ {slot x}, m'.tables.stored? slot = some x → m.tables.stored? slot = some x)
      (hflights : m'.tables.flights = m.tables.flights)
      (hticket : m'.tables.nextTicket = m.tables.nextTicket) : Effect m m'
  | tookOff {t : Task π} (hnew : m'.tasks.get? m.tables.nextTicket = some t)
      (hfresh : t.stage = .fresh) (hages : m.Ages m')
      (hlook : ∀ a, m.tables.stored? t.slot ≠ some (t.fingerprint, a))
      (hother : ∀ flight, m.tables.flights.get? t.slot = some flight →
        flight.fingerprint ≠ t.fingerprint)
      (hstored : m'.tables.stored? = m.tables.stored?)
      (hflights : m'.tables.flights =
        m.tables.flights.insert t.slot ⟨m.tables.nextTicket, t.fingerprint⟩)
      (hticket : m'.tables.nextTicket = m.tables.nextTicket + 1) : Effect m m'
  | stored {k : Nat} {t : Task π} {a : Held (Artifact π)} (ht : m.tasks.get? k = some t)
      (hstage : t.stage = .storing a) (hages : m.Ages m')
      (hnew : m'.tasks.get? k = some { t with stage := .clearing (.ok a) })
      (htables : m'.tables = m.tables.store t.slot t.fingerprint a) : Effect m m'
  | cleared {k : Nat} {t : Task π} {o : Outcome π} (ht : m.tasks.get? k = some t)
      (hstage : t.stage = .clearing o) (hages : m.Ages m')
      (hnew : m'.tasks.get? k = some { t with stage := .announcing o })
      (htables : m'.tables = m.tables.dropFlight t.slot) : Effect m m'

theorem Effect.nextTicket_le (h : m.Effect m') :
    m.tables.nextTicket ≤ m'.tables.nextTicket := by
  cases h with
  | steady hages hstored hflights hticket => exact Nat.le_of_eq hticket.symm
  | tookOff hnew hfresh hages hlook hother hstored hflights hticket =>
      rw [hticket]
      exact Nat.le_succ _
  | stored ht hstage hages hnew htables =>
      rw [htables]
      exact Nat.le_refl _
  | cleared ht hstage hages hnew htables =>
      rw [htables]
      exact Nat.le_refl _

theorem Effect.ages (h : m.Effect m') : m.Ages m' := by
  cases h with
  | steady hages => exact hages
  | tookOff hnew hfresh hages => exact hages
  | stored ht hstage hages => exact hages
  | cleared ht hstage hages => exact hages

end Machine

theorem Request.machineEffect_of_moves {environment : String} {r r' : Request π}
    {m m' : Machine π} (h : m.Formed) (hmove : r.Moves environment m (r', m')) :
    m.Effect m' := by
  have hages := (formed_of_moves h hmove).right.ages
  rcases effect_of_moves hmove with ⟨htasks, halike⟩ | ⟨f, _, hnext, hlook, hother⟩
  · exact .steady hages (fun hstored => halike.stored ▸ hstored) halike.flights halike.nextTicket
  · cases hnext
    exact .tookOff (get?_takeOff_self ..) rfl hages hlook hother rfl rfl rfl

/-- A step of a task that neither stores its artifact nor takes its flight out. -/
theorem Machine.steady_setStage {m m₁ : Machine π} {ticket : Nat} {t : Task π}
    {s : TaskStage π} (ht : m.tasks.get? ticket = some t) (htasks : m₁.tasks = m.tasks)
    (hwithin : m.tables.Within m₁.tables) (hflights : m₁.tables.flights = m.tables.flights)
    (hrunning : s.isRunning → t.stage.isRunning)
    (hsettled : ∀ {o}, t.stage.settled? = some o → s.settled? = some o) :
    m.Effect (m₁.setStage ticket s) :=
  .steady (ages_setStage (adds_of_tasks_eq htasks) ht hrunning hsettled) hwithin.stored?
    hflights hwithin.nextTicket

theorem Task.effect_of_moves {b : Backend π} {gateOpen : Bool} {ticket : Nat} {t : Task π}
    {m m' : Machine π} (h : m.Formed) (ht : m.tasks.get? ticket = some t)
    (hmove : t.Moves b gateOpen ticket m m') : m.Effect m' := by
  -- Up to landing a task runs, and nothing is settled.
  have hearly {m₁ : Machine π} {s : TaskStage π} (htasks : m₁.tasks = m.tasks)
      (hwithin : m.tables.Within m₁.tables) (hflights : m₁.tables.flights = m.tables.flights)
      (hrunning : t.stage.isRunning) (hsettled : t.stage.settled? = none) :
      m.Effect (m₁.setStage ticket s) := by
    refine Machine.steady_setStage ht htasks hwithin hflights (fun _ => hrunning) ?_
    intro o ho
    rw [hsettled] at ho
    cases ho
  cases hmove with
  | unknown hstage hproject =>
      rcases hstage with hstage | ⟨references, hstage⟩
      · exact hearly rfl (.refl _) rfl (by rw [hstage]; rfl) (by rw [hstage]; rfl)
      · exact hearly rfl (.refl _) rfl (by rw [hstage]; rfl) (by rw [hstage]; rfl)
  | entered hstage =>
      exact hearly rfl (.refl _) rfl (by rw [hstage]; rfl) (by rw [hstage]; rfl)
  | @stepped asked r r' m₁ left hstage hactive hrequest =>
      have hadds := (Request.formed_of_moves h hrequest).right
      have hages : m.Ages (m₁.setStage ticket (.gathering (asked ++ [r']) left)) := by
        apply Machine.ages_setStage hadds ht
        · intro _
          rw [hstage]
          rfl
        · intro o ho
          rw [hstage] at ho
          cases ho
      rcases Request.effect_of_moves hrequest with
        ⟨htasks, halike⟩ | ⟨f, _, hnext, hlook, hother⟩
      · exact .steady hages (fun hstored => halike.stored ▸ hstored) halike.flights
          halike.nextTicket
      · cases hnext
        refine .tookOff (t := ⟨r.context, r.project, f, .fresh⟩) ?_ rfl hages hlook hother
          rfl rfl rfl
        rw [Machine.get?_setStage, if_neg (Nat.ne_of_gt (h.lt_nextTicket ht))]
        exact Request.get?_takeOff_self ..
  | failed hstage hgathered =>
      exact hearly rfl (.refl _) rfl (by rw [hstage]; rfl) (by rw [hstage]; rfl)
  | asked hstage hlast =>
      exact hearly rfl (.refl _) rfl (by rw [hstage]; rfl) (by rw [hstage]; rfl)
  | gathered hstage hgathered =>
      exact hearly rfl (.refl _) rfl (by rw [hstage]; rfl) (by rw [hstage]; rfl)
  | counted hstage =>
      exact hearly rfl (Tables.within_countCompile _) rfl (by rw [hstage]; rfl)
        (by rw [hstage]; rfl)
  | called hstage hproject =>
      exact hearly rfl (.refl _) rfl (by rw [hstage]; rfl) (by rw [hstage]; rfl)
  | @answered u hstage hopen =>
      refine hearly rfl (Task.within_conclude _ _ _) ?_ (by rw [hstage]; rfl)
        (by rw [hstage]; rfl)
      cases b.compile u <;> rfl
  | landed hstage hflight =>
      exact hearly rfl (.refl _) rfl (by rw [hstage]; rfl) (by rw [hstage]; rfl)
  | crashed hstage hflight =>
      exact hearly rfl (.refl _) rfl (by rw [hstage]; rfl) (by rw [hstage]; rfl)
  | diverted hstage hlost =>
      exact hearly rfl (.refl _) rfl (by rw [hstage]; rfl) (by rw [hstage]; rfl)
  | stored hstage =>
      refine .stored ht hstage ?_ (Machine.get?_setStage_self ht _) rfl
      apply Machine.ages_setStage (Machine.adds_of_tasks_eq rfl) ht
      · intro _
        rw [hstage]
        rfl
      · intro o ho
        rw [hstage] at ho
        cases ho
  | cleared hstage =>
      refine .cleared ht hstage ?_ (Machine.get?_setStage_self ht _) rfl
      apply Machine.ages_setStage (Machine.adds_of_tasks_eq rfl) ht
      · exact fun hrunning => absurd hrunning Bool.false_ne_true
      · intro o ho
        rwa [hstage] at ho
  | announced hstage =>
      apply Machine.steady_setStage ht rfl (.refl _) rfl
      · exact fun hrunning => absurd hrunning Bool.false_ne_true
      · intro o ho
        rwa [hstage] at ho
  | swept hstage =>
      refine Machine.steady_setStage ht ?_ (Tables.within_sweepCapacity _)
        (Tables.flights_sweepCapacity _) ?_ ?_
      · rfl
      · exact fun hrunning => absurd hrunning Bool.false_ne_true
      · intro o ho
        rwa [hstage] at ho

theorem Upkeep.IsSweep.flights_eq {u : Upkeep} (hu : u.IsSweep) (t : Tables π) :
    (u.apply t).flights = t.flights := by
  cases u with
  | sweepExpired maxAge => exact Tables.flights_evictAll t _
  | sweepCapacity => exact Tables.flights_sweepCapacity t
  | dropEntry slot => rfl
  | dropListings slot => rfl
  | countEvictions n => rfl
  | _ => exact hu.elim

theorem Machine.effect_of_turns {backends : Set (Backend π)} {m m' : Machine π}
    (h : m.Formed) (hturn : m.Turns backends sweeps m') : m.Effect m' := by
  cases hturn with
  | task hb ht hmove => exact Task.effect_of_moves h ht hmove
  | request hb hmove => exact Request.machineEffect_of_moves h hmove
  | @upkeep u hu =>
      have hwithin := u.within m.tables
      exact .steady (adds_of_tasks_eq rfl).ages hwithin.stored? (hu.flights_eq _)
        hwithin.nextTicket
  | aside htasks hentries hflights hticket =>
      refine .steady (adds_of_tasks_eq htasks).ages ?_ hflights hticket
      intro slot x hstored
      rwa [Tables.stored?_congr hentries] at hstored

end Cache
end Ripple
