import Ripple.Proofs.Cache.Waiting

/-!
# One compile for each project

In a single context all requests for a project go by one fingerprint. The first of them
gets a compile off. From then on either its flight is there, or its artifact is stored,
since a task stores its artifact before it takes its flight out. So as long as compiles
succeed and entries are not removed, no request gets a second compile off.
-/

namespace Ripple
namespace Cache

variable {π : Type}

/-!
# How far tasks are
-/

namespace TaskStage

/-- All dependencies are there. -/
def hasGathered : TaskStage π → Bool
  | .fresh | .gathering _ _ => false
  | _ => true

/-- The backend has been called. -/
def hasCalled : TaskStage π → Bool
  | .fresh | .gathering _ _ | .gathered _ | .counted _ => false
  | _ => true

/-- The outcome, once the backend has answered. -/
def produced? : TaskStage π → Option (Outcome π)
  | .landing o | .clearing o | .announcing o | .announced o | .ended o => some o
  | .storing a => some (.ok a)
  | _ => none

theorem produced?_of_settled? {s : TaskStage π} {o : Outcome π} (h : s.settled? = some o) :
    s.produced? = some o := by
  cases s with
  | clearing o' => exact h
  | announcing o' => exact h
  | announced o' => exact h
  | ended o' => exact h
  | _ => cases h

theorem hasCalled_of_produced? {s : TaskStage π} {o : Outcome π} (h : s.produced? = some o) :
    s.hasCalled ∧ s.hasGathered := by
  cases s <;> first | exact ⟨rfl, rfl⟩ | cases h

end TaskStage

/-- The artifact is what a backend has answered to a call for the project. -/
def Machine.Answered (backends : Set (Backend π)) (m : Machine π) (id : ProjectId)
    (a : Artifact π) : Prop :=
  ∃ u ∈ m.calls, u.project = id ∧ ∃ b ∈ backends, b.compile u = .compiled a

/-- The task is the only one that calls the backend for its project, and what it finds out
is either under way or stored. -/
structure Task.Fares (backends : Set (Backend π)) (m : Machine π) (k : Nat) (t : Task π) :
    Prop where
  count : m.callCount t.project = if t.stage.hasCalled then 1 else 0
  calling : ∀ {u}, t.stage = .compiling u → u ∈ m.calls ∧ u.project = t.project
  produced : ∀ {o}, t.stage.produced? = some o →
    ∃ a, o = .ok a ∧ m.Answered backends t.project a.value
  aloft : t.stage.settled? = none →
    m.tables.flights.get? t.slot = some ⟨k, t.fingerprint⟩
  kept : ∀ {a}, t.stage.settled? = some (.ok a) →
    m.tables.stored? t.slot = some (t.fingerprint, a)

theorem Task.Fares.settled {backends : Set (Backend π)} {m : Machine π} {k : Nat} {t : Task π}
    (h : t.Fares backends m k) {o : Outcome π} (ho : t.stage.settled? = some o) :
    ∃ a, o = .ok a ∧ m.tables.stored? t.slot = some (t.fingerprint, a) := by
  rcases h.produced (TaskStage.produced?_of_settled? ho) with ⟨a, rfl, _⟩
  exact ⟨a, rfl, h.kept ho⟩

theorem Task.Fares.frame {backends : Set (Backend π)} {m m' : Machine π} {k : Nat} {t : Task π}
    (h : t.Fares backends m k) (hcalls : m.calls ⊆ m'.calls)
    (hcount : m'.callCount t.project = m.callCount t.project)
    (hflight : m'.tables.flights.get? t.slot = m.tables.flights.get? t.slot)
    (hstored : m'.tables.stored? t.slot = m.tables.stored? t.slot) :
    t.Fares backends m' k where
  count := hcount.trans h.count
  calling hu := ⟨hcalls (h.calling hu).left, (h.calling hu).right⟩
  produced ho := by
    rcases h.produced ho with ⟨a, rfl, u, hu, hid, hanswer⟩
    exact ⟨a, rfl, u, hcalls hu, hid, hanswer⟩
  aloft hnone := hflight.trans (h.aloft hnone)
  kept ha := hstored.trans (h.kept ha)

/-!
# The invariant
-/

namespace Machine

variable {backends : Set (Backend π)} {m m' : Machine π}

/-- All compiles of a project are one and the same. -/
structure Once (backends : Set (Backend π)) (m : Machine π) : Prop where
  fares : ∀ {k t}, m.tasks.get? k = some t → t.Fares backends m k
  unique : ∀ {k k' t t'}, m.tasks.get? k = some t → m.tasks.get? k' = some t' →
    t'.project = t.project → k' = k
  calls : ∀ u ∈ m.calls, ∃ k t, m.tasks.get? k = some t ∧ t.project = u.project

theorem once_new (settings : CacheSettings) : (new settings : Machine π).Once backends :=
  ⟨nofun, nofun, nofun⟩

/-- No task, no call. -/
theorem Once.callCount_eq_zero (h : m.Once backends) {id : ProjectId}
    (hnone : ∀ {k t}, m.tasks.get? k = some t → t.project ≠ id) : m.callCount id = 0 := by
  refine List.countP_eq_zero.mpr fun u hu => ?_
  rcases h.calls u hu with ⟨k, t, ht, hid⟩
  intro heq
  exact hnone ht (hid.trans (of_decide_eq_true heq))

/-- No project is compiled twice, and none without a task. -/
theorem Once.callCount_le (h : m.Once backends) (id : ProjectId) :
    m.callCount id ≤ 1 ∧
      (m.callCount id ≠ 0 → ∃ k t, m.tasks.get? k = some t ∧ t.project = id) := by
  by_cases htask : ∃ k t, m.tasks.get? k = some t ∧ t.project = id
  · refine ⟨?_, fun _ => htask⟩
    rcases htask with ⟨k, t, ht, rfl⟩
    rw [(h.fares ht).count]
    split
    · exact Nat.le_refl 1
    · exact Nat.zero_le 1
  · have hzero := h.callCount_eq_zero fun {k t} ht hid => htask ⟨k, t, ht, hid⟩
    exact ⟨hzero ▸ Nat.zero_le 1, fun hcalled => absurd hzero hcalled⟩

theorem Once.alike (h : m.Once backends) (htasks : m'.tasks = m.tasks)
    (hcalls : m'.calls = m.calls) (hflights : m'.tables.flights = m.tables.flights)
    (hstored : m'.tables.stored? = m.tables.stored?) : m'.Once backends where
  fares := by
    intro k t ht
    rw [htasks] at ht
    apply (h.fares ht).frame
    · rw [hcalls]
      exact List.Subset.refl _
    · rw [callCount, hcalls, callCount]
    · rw [hflights]
    · rw [hstored]
  unique ht ht' := h.unique (htasks ▸ ht) (htasks ▸ ht')
  calls u hu := htasks ▸ h.calls u (hcalls ▸ hu)

/-- A task goes on, and the others fare as before. -/
theorem Once.goOn (h : m.Once backends) {k : Nat} {t : Task π} {s : TaskStage π}
    (ht : m.tasks.get? k = some t) (htasks : m'.tasks = m.tasks)
    (hself : ({ t with stage := s } : Task π).Fares backends m' k)
    (hothers : ∀ {k' t'}, m.tasks.get? k' = some t' → t'.project ≠ t.project →
      t'.Fares backends m' k')
    (hcalls : ∀ u ∈ m'.calls, u ∈ m.calls ∨ u.project = t.project) :
    (m'.setStage k s).Once backends := by
  have hnow : (m'.setStage k s).tasks.get? k = some { t with stage := s } :=
    get?_setStage_self (htasks ▸ ht) s
  have hback {k' : Nat} {t' : Task π} (ht' : (m'.setStage k s).tasks.get? k' = some t') :
      (k' = k ∧ t' = { t with stage := s }) ∨ (k' ≠ k ∧ m.tasks.get? k' = some t') :=
    htasks ▸ get?_of_setStage (htasks ▸ ht) ht'
  constructor
  · intro k' t' ht'
    rcases hback ht' with ⟨rfl, rfl⟩ | ⟨hk, ht'⟩
    · exact hself.frame (List.Subset.refl _) rfl rfl rfl
    · have hne : t'.project ≠ t.project := fun hsame => hk (h.unique ht ht' hsame)
      exact (hothers ht' hne).frame (List.Subset.refl _) rfl rfl rfl
  · intro k₁ k₂ t₁ t₂ ht₁ ht₂ hsame
    rcases hback ht₁ with ⟨hk₁, rfl⟩ | ⟨_, hold₁⟩
    · rcases hback ht₂ with ⟨hk₂, _⟩ | ⟨_, hold₂⟩
      · exact hk₂.trans hk₁.symm
      · exact (h.unique ht hold₂ hsame).trans hk₁.symm
    · rcases hback ht₂ with ⟨hk₂, rfl⟩ | ⟨_, hold₂⟩
      · exact hk₂.trans (h.unique hold₁ ht hsame)
      · exact h.unique hold₁ hold₂ hsame
  · intro u hu
    rcases hcalls u hu with hu | hid
    · rcases h.calls u hu with ⟨k', t', ht', hid⟩
      by_cases hk : k' = k
      · rw [hk, ht] at ht'
        cases ht'
        exact ⟨k, _, hnow, hid⟩
      · refine ⟨k', t', ?_, hid⟩
        rw [get?_setStage, if_neg hk, htasks, ht']
    · exact ⟨k, _, hnow, hid.symm⟩

/-- A task that has not called the backend yet goes on without calling it. -/
theorem Once.prepare (h : m.Once backends) {k : Nat} {t : Task π} {s : TaskStage π}
    (ht : m.tasks.get? k = some t) (htasks : m'.tasks = m.tasks) (hcalls : m'.calls = m.calls)
    (hflights : m'.tables.flights = m.tables.flights)
    (hstored : m'.tables.stored? = m.tables.stored?) (hbefore : ¬ t.stage.hasCalled)
    (hafter : ¬ s.hasCalled) : (m'.setStage k s).Once backends := by
  have halike : m'.Once backends := h.alike htasks hcalls hflights hstored
  have ht' : m'.tasks.get? k = some t := htasks ▸ ht
  have hfares := halike.fares ht'
  have hunsettled {s : TaskStage π} {o : Outcome π} (hs : ¬ s.hasCalled) :
      s.settled? ≠ some o := fun ho =>
    hs (TaskStage.hasCalled_of_produced? (TaskStage.produced?_of_settled? ho)).left
  refine halike.goOn ht' rfl ?_ (fun ht _ => halike.fares ht) (fun u hu => .inl hu)
  constructor
  · exact hfares.count.trans ((if_neg hbefore).trans (if_neg hafter).symm)
  · rintro u rfl
    exact absurd rfl hafter
  · intro o ho
    exact absurd (TaskStage.hasCalled_of_produced? ho).left hafter
  · intro _
    exact hfares.aloft (Option.eq_none_iff_forall_ne_some.mpr fun _ => hunsettled hbefore)
  · intro a ha
    exact absurd ha (hunsettled hafter)

theorem callCount_recordCall (m : Machine π) (u : CompileUnit π) (id : ProjectId) :
    (m.recordCall u).callCount id = m.callCount id + if u.project = id then 1 else 0 := by
  simp [callCount, recordCall, List.countP_append, List.countP_singleton]

/-- A task calls the backend. -/
theorem Once.call (h : m.Once backends) {k : Nat} {t : Task π} {u : CompileUnit π}
    (ht : m.tasks.get? k = some t) (hbefore : ¬ t.stage.hasCalled)
    (haloft : m.tables.flights.get? t.slot = some ⟨k, t.fingerprint⟩)
    (hid : u.project = t.project) :
    ((m.recordCall u).setStage k (.compiling u)).Once backends := by
  have hnone := (h.fares ht).count
  rw [if_neg hbefore] at hnone
  refine h.goOn ht rfl ?_ ?_ ?_
  · constructor
    · rw [callCount_recordCall, hnone, if_pos hid]
      rfl
    · rintro u' hu'
      cases hu'
      exact ⟨List.mem_append_right _ (List.mem_singleton_self _), hid⟩
    · exact nofun
    · exact fun _ => haloft
    · exact nofun
  · intro k' t' ht' hne
    refine (h.fares ht').frame ?_ ?_ rfl rfl
    · exact List.subset_append_left _ _
    · rw [callCount_recordCall, if_neg fun heq => hne (heq.symm.trans hid), Nat.add_zero]
  · intro u' hu'
    rcases List.mem_append.mp hu' with hu' | hu'
    · exact .inl hu'
    · rw [List.mem_singleton.mp hu']
      exact .inr hid

/-- The backend answers. -/
theorem Once.answer (h : m.Once backends) {b : Backend π} (hb : b ∈ backends) {k : Nat}
    {t : Task π} {u : CompileUnit π} {a : Held (Artifact π)} (ht : m.tasks.get? k = some t)
    (hstage : t.stage = .compiling u) (ha : b.compile u = .compiled a.value)
    (htasks : m'.tasks = m.tasks) (hcalls : m'.calls = m.calls)
    (hflights : m'.tables.flights = m.tables.flights)
    (hstored : m'.tables.stored? = m.tables.stored?) :
    (m'.setStage k (.landing (.ok a))).Once backends := by
  have halike : m'.Once backends := h.alike htasks hcalls hflights hstored
  have ht' : m'.tasks.get? k = some t := htasks ▸ ht
  have hfares := halike.fares ht'
  rcases hfares.calling hstage with ⟨hu, hid⟩
  refine halike.goOn ht' rfl ?_ (fun ht _ => halike.fares ht) (fun u hu => .inl hu)
  constructor
  · have hone := hfares.count
    rw [hstage] at hone
    exact hone
  · exact nofun
  · intro o ho
    cases ho
    exact ⟨a, rfl, u, hu, hid, b, hb, ha⟩
  · exact fun _ => hfares.aloft (by rw [hstage]; rfl)
  · exact nofun

/-- A task that the backend has answered goes on with the answer. -/
theorem Once.publish (h : m.Once backends) {k : Nat} {t : Task π} {s : TaskStage π}
    {o : Outcome π} (ht : m.tasks.get? k = some t) (htasks : m'.tasks = m.tasks)
    (hcalls : m'.calls = m.calls) (hbefore : t.stage.produced? = some o)
    (hafter : s.produced? = some o)
    (hothers : ∀ slot, slot ≠ t.slot →
      m'.tables.flights.get? slot = m.tables.flights.get? slot ∧
        m'.tables.stored? slot = m.tables.stored? slot)
    (haloft : s.settled? = none →
      m'.tables.flights.get? t.slot = some ⟨k, t.fingerprint⟩)
    (hkept : ∀ a, s.settled? = some (.ok a) →
      m'.tables.stored? t.slot = some (t.fingerprint, a)) : (m'.setStage k s).Once backends := by
  have hfares := h.fares ht
  have hcount (id : ProjectId) : m'.callCount id = m.callCount id := by
    rw [callCount, hcalls, callCount]
  refine h.goOn ht htasks ?_ ?_ (fun u hu => .inl (hcalls ▸ hu))
  · constructor
    · have hone := hfares.count
      rw [if_pos (TaskStage.hasCalled_of_produced? hbefore).left] at hone
      rw [if_pos (TaskStage.hasCalled_of_produced? hafter).left]
      exact (hcount _).trans hone
    · rintro u rfl
      cases hafter
    · intro o' ho'
      rw [hafter] at ho'
      cases ho'
      rcases hfares.produced hbefore with ⟨a, rfl, u, hu, hanswer⟩
      exact ⟨a, rfl, u, hcalls ▸ hu, hanswer⟩
    · exact haloft
    · exact hkept _
  · intro k' t' ht' hne
    rcases hothers t'.slot fun hslot => hne (congrArg Slot.project hslot) with
      ⟨hflight, hstored⟩
    apply (h.fares ht').frame
    · rw [hcalls]
      exact List.Subset.refl _
    · exact hcount _
    · exact hflight
    · exact hstored

theorem Once.takeOff (h : m.Once backends) (hm : m.Formed) {r : Request π} {f : Fingerprint}
    (hnone : ∀ {k t}, m.tasks.get? k = some t → t.project ≠ r.project) :
    (r.takeOff f m).2.Once backends := by
  constructor
  · intro k t ht
    rcases Request.get?_of_takeOff ht with ⟨rfl, rfl⟩ | ⟨_, ht⟩
    · constructor
      · exact h.callCount_eq_zero hnone
      · exact nofun
      · exact nofun
      · intro _
        exact Table.get?_insert_self ..
      · exact nofun
    · have hslot : t.slot ≠ r.slot := fun hslot => hnone ht (congrArg Slot.project hslot)
      exact (h.fares ht).frame (List.Subset.refl _) rfl (Table.get?_insert_of_ne _ hslot _) rfl
  · intro k k' t t' ht ht' hsame
    rcases Request.get?_of_takeOff ht with ⟨rfl, rfl⟩ | ⟨_, ht⟩
    · rcases Request.get?_of_takeOff ht' with ⟨rfl, _⟩ | ⟨_, ht'⟩
      · rfl
      · exact absurd hsame (hnone ht')
    · rcases Request.get?_of_takeOff ht' with ⟨rfl, rfl⟩ | ⟨_, ht'⟩
      · exact absurd hsame.symm (hnone ht)
      · exact h.unique ht ht' hsame
  · intro u hu
    rcases h.calls u hu with ⟨k, t, ht, hid⟩
    exact ⟨k, t, Request.adds_takeOff hm f ht, hid⟩

end Machine

/-!
# Steps
-/

theorem Request.calls_of_moves {environment : String} {r r' : Request π} {m m' : Machine π}
    (hmove : r.Moves environment m (r', m')) : m'.calls = m.calls := by
  generalize hnext : (r', m') = next at hmove
  cases hmove with
  | _ =>
      cases hnext
      rfl

/-- All tasks for the project of a request are for what it is for. -/
def Request.Matches (r : Request π) (m : Machine π) : Prop :=
  ∀ ⦃f⦄, r.stage = .joining f → ∀ ⦃k t⦄, m.tasks.get? k = some t → t.project = r.project →
    t.slot = r.slot ∧ t.fingerprint = f

theorem Request.once_of_moves {backends : Set (Backend π)} {environment : String}
    {r r' : Request π} {m m' : Machine π} (h : m.Once backends) (hm : m.Formed)
    (hmatches : r.Matches m) (hmove : r.Moves environment m (r', m')) : m'.Once backends := by
  rcases effect_of_moves hmove with ⟨htasks, halike⟩ | ⟨f, hstage, hnext, hlook, hother⟩
  · exact h.alike htasks (calls_of_moves hmove) halike.flights halike.stored
  · cases hnext
    apply h.takeOff hm
    intro k t ht hid
    rcases hmatches hstage ht hid with ⟨hslot, hf⟩
    have hfares := h.fares ht
    cases hsettled : t.stage.settled? with
    | none =>
        have hflight := hfares.aloft hsettled
        rw [hslot] at hflight
        exact hother _ hflight hf
    | some o =>
        rcases hfares.settled hsettled with ⟨a, rfl, hstored⟩
        rw [hslot, hf] at hstored
        exact hlook a hstored

theorem Tables.Within.stored?_eq {t t' : Tables π} (h : t.Within t')
    (hretains : ∀ ⦃slot⦄, (t.stored? slot).isSome → (t'.stored? slot).isSome) :
    t'.stored? = t.stored? := by
  funext slot
  cases hafter : t'.stored? slot with
  | some x => exact (h.stored? hafter).symm
  | none =>
      cases hbefore : t.stored? slot with
      | none => rfl
      | some x =>
          have hsome := hretains (by rw [hbefore]; rfl : (t.stored? slot).isSome)
          rw [hafter] at hsome
          cases hsome

/-- What goes wrong nowhere: the project of the task is there, the backend answers, and so
do all requests. -/
structure Task.Thrives (b : Backend π) (m : Machine π) (t : Task π) : Prop where
  project : ∃ p, t.context.workspace.project? t.project = some p
  compiles : ∀ u, ∃ a, b.compile u = .compiled a
  answers : ∀ {asked left r result}, t.stage = .gathering asked left → r ∈ asked →
    r.result? m = some result → ∃ found, result = .ok found
  requests : ∀ {asked left r}, t.stage = .gathering asked left → r ∈ asked → r.Matches m

/-- How requests come to what they have gathered. -/
theorem Task.of_gathered?_cons {m : Machine π} {r : Request π} {rest : List (Request π)}
    {x : Outcome π ⊕ List (Held (Artifact π))} (h : gathered? m (r :: rest) = some x) :
    match x with
    | .inl o => (∃ e, r.result? m = some (.error e)) ∨ gathered? m rest = some (.inl o)
    | .inr _ => ∃ found more, r.result? m = some (.ok found) ∧
        gathered? m rest = some (.inr more) := by
  unfold gathered? at h
  cases hresult : r.result? m with
  | none =>
      rw [hresult] at h
      cases hmore : gathered? m rest with
      | none =>
          rw [hmore] at h
          cases h
      | some more =>
          rw [hmore] at h
          cases more <;> cases h
          exact .inr rfl
  | some result =>
      rw [hresult] at h
      cases result with
      | error e =>
          cases h
          exact .inl ⟨e, rfl⟩
      | ok found =>
          cases hmore : gathered? m rest with
          | none =>
              rw [hmore] at h
              cases h
          | some more =>
              rw [hmore] at h
              cases more with
              | inl o =>
                  cases h
                  exact .inr rfl
              | inr more =>
                  cases h
                  exact ⟨found, more, rfl, rfl⟩

theorem Task.isOk_of_gathered? {m : Machine π} {asked : List (Request π)} {o : Outcome π}
    (hok : ∀ r ∈ asked, ∀ result, r.result? m = some result → ∃ found, result = .ok found) :
    gathered? m asked ≠ some (.inl o) := by
  induction asked with
  | nil => exact nofun
  | cons r rest ih =>
      intro h
      rw [List.forall_mem_cons] at hok
      rcases of_gathered?_cons h with ⟨e, hresult⟩ | hmore
      · rcases hok.left _ hresult with ⟨found, hfound⟩
        cases hfound
      · exact ih hok.right hmore

theorem Task.once_of_moves {backends : Set (Backend π)} {b : Backend π} (hb : b ∈ backends)
    {gateOpen : Bool} {k : Nat} {t : Task π} {m m' : Machine π} (h : m.Once backends)
    (hm : m.Formed) (ht : m.tasks.get? k = some t) (hthrives : t.Thrives b m)
    (hmove : t.Moves b gateOpen k m m') (hretains : m.Retains m') : m'.Once backends := by
  have hfares := h.fares ht
  have hprepare {s : TaskStage π} (hbefore : ¬ t.stage.hasCalled) (hafter : ¬ s.hasCalled) :
      (m.setStage k s).Once backends :=
    h.prepare ht rfl rfl rfl rfl hbefore hafter
  rcases hthrives.project with ⟨p, hp⟩
  cases hmove with
  | unknown hstage hproject =>
      rw [hp] at hproject
      cases hproject
  | entered hstage =>
      exact hprepare (by rw [hstage]; exact Bool.false_ne_true) Bool.false_ne_true
  | @stepped asked r r' m₁ left hstage hactive hrequest =>
      have hmem : r ∈ asked ++ [r] := List.mem_append_right _ (List.mem_singleton_self r)
      have hm₁ := Request.once_of_moves h hm (hthrives.requests hstage hmem) hrequest
      have ht₁ := (Request.formed_of_moves hm hrequest).right ht
      exact hm₁.prepare ht₁ rfl rfl rfl rfl (by rw [hstage]; exact Bool.false_ne_true)
        Bool.false_ne_true
  | failed hstage hgathered =>
      refine absurd hgathered (isOk_of_gathered? ?_)
      exact fun r hr result hresult => hthrives.answers hstage hr hresult
  | asked hstage hlast =>
      exact hprepare (by rw [hstage]; exact Bool.false_ne_true) Bool.false_ne_true
  | gathered hstage hgathered =>
      exact hprepare (by rw [hstage]; exact Bool.false_ne_true) Bool.false_ne_true
  | counted hstage =>
      exact h.prepare ht rfl rfl rfl rfl (by rw [hstage]; exact Bool.false_ne_true)
        Bool.false_ne_true
  | called hstage hproject =>
      refine h.call ht (by rw [hstage]; exact Bool.false_ne_true) ?_ ?_
      · exact hfares.aloft (by rw [hstage]; rfl)
      · exact (Context.project?_mem hproject).right
  | @answered u hstage hopen =>
      rcases hthrives.compiles u with ⟨a, ha⟩
      rw [ha]
      exact h.answer hb ht hstage ha rfl rfl rfl rfl
  | @landed a f hstage hflight =>
      refine h.publish (o := .ok a) ht rfl rfl (by rw [hstage]; rfl) rfl
        (fun _ _ => ⟨rfl, rfl⟩) ?_ nofun
      exact fun _ => hfares.aloft (by rw [hstage]; rfl)
  | crashed hstage hflight =>
      rcases hfares.produced (congrArg TaskStage.produced? hstage) with ⟨a, ha, _⟩
      cases ha
  | diverted hstage hlost =>
      exact absurd rfl (hlost _ (hfares.aloft (by rw [hstage]; rfl)))
  | @stored a hstage =>
      refine h.publish (o := .ok a) ht rfl rfl (by rw [hstage]; rfl) rfl ?_ nofun ?_
      · intro slot hslot
        exact ⟨rfl, (Tables.stored?_store ..).trans (if_neg hslot)⟩
      · rintro a' ha'
        cases ha'
        exact (Tables.stored?_store ..).trans (if_pos rfl)
  | @cleared o hstage =>
      refine h.publish (o := o) ht rfl rfl (by rw [hstage]; rfl) rfl ?_ nofun ?_
      · intro slot hslot
        exact ⟨Table.get?_erase_of_ne _ hslot, rfl⟩
      · rintro a ha
        exact hfares.kept (by rw [hstage]; exact ha)
  | @announced o hstage =>
      refine h.publish (o := o) ht rfl rfl (by rw [hstage]; rfl) rfl
        (fun _ _ => ⟨rfl, rfl⟩) nofun ?_
      rintro a ha
      exact hfares.kept (by rw [hstage]; exact ha)
  | @swept o hstage =>
      have hstored : m.tables.sweepCapacity.2.stored? = m.tables.stored? :=
        (Tables.within_sweepCapacity m.tables).stored?_eq hretains
      refine h.publish (o := o) ht rfl rfl (by rw [hstage]; rfl) rfl ?_ nofun ?_
      · intro slot _
        exact ⟨congrArg (Table.get? · slot) (Tables.flights_sweepCapacity m.tables),
          congrFun hstored slot⟩
      · rintro a ha
        exact (congrFun hstored t.slot).trans (hfares.kept (by rw [hstage]; exact ha))

end Cache
end Ripple
