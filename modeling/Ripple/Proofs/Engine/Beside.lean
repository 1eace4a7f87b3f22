import Ripple.Proofs.Engine.Effects

/-!
# What a step leaves to the others

A step for one session leaves the other sessions alone, and all tasks of the cache. It
may take away what is cached, and have something compiled ahead.
-/

namespace Ripple

open Cache

variable {σ π α β : Type}

namespace Engine

/-- Nothing is done to another session, or to a task. -/
structure Beside (id : SessionId) (e e' : Engine σ π) : Prop where
  others : ∀ other, other ≠ id → e'.sessions.get? other = e.sessions.get? other
  keyed : ∀ s, e'.sessions.get? id = some s → s.id = id
  tasks : e'.schedule.machine.tasks = e.schedule.machine.tasks
  started : e'.started = e.started
  formed : e.schedule.Formed → e'.schedule.Formed

variable {sv : Services σ π} {id : SessionId} {e e' : Engine σ π} {s : Session}

theorem Beside.refl (hkeyed : ∀ s, e.sessions.get? id = some s → s.id = id) : Beside id e e :=
  ⟨fun _ _ => rfl, hkeyed, rfl, rfl, fun h => h⟩

theorem Beside.setSession (h : Beside id e e') (hs : s.id = id) :
    Beside id e (e'.setSession s) where
  others other hother := by
    change (e'.sessions.insert s.id s).get? other = _
    rw [Table.get?_insert_of_ne _ (hs.symm ▸ hother)]
    exact h.others other hother
  keyed t ht := by
    cases (get?_setSession hs).symm.trans ht
    exact hs
  tasks := h.tasks
  started := h.started
  formed := h.formed

theorem Beside.updateTables (h : Beside id e e') {f : Tables π → Tables π}
    (hf : ∀ t, (f t).nextTicket = t.nextTicket) : Beside id e (e'.updateTables f) :=
  ⟨h.others, h.keyed, h.tasks, h.started, fun hformed => (h.formed hformed).updateTables (hf _)⟩

theorem Beside.withStore (h : Beside id e e') (store : σ) :
    Beside id e { e' with store := store } :=
  ⟨h.others, h.keyed, h.tasks, h.started, h.formed⟩

theorem Beside.abortPrewarm (h : Beside id e e') (t : Session) :
    Beside id e (e'.abortPrewarm t) := by
  unfold Engine.abortPrewarm
  cases t.prewarm with
  | none => exact h
  | some batch =>
      refine ⟨h.others, h.keyed, h.tasks, h.started, fun hformed => ?_⟩
      exact ⟨(h.formed hformed).machine, Table.nodup_keys_erase (h.formed hformed).batches _⟩

theorem Beside.prewarm (h : Beside id e e') (hs : s.id = id) : Beside id e (e'.prewarm s) := by
  simp only [Engine.prewarm]
  split
  · exact h
  · have haborted := h.abortPrewarm s
    have hstarted : Beside id e { e' with
        schedule := ((e'.abortPrewarm s).schedule.startBatch
          (s.graph.leaves.map (Request.of s.context))).2 } := by
      refine ⟨h.others, h.keyed, haborted.tasks, h.started, fun hformed => ?_⟩
      exact ⟨(haborted.formed hformed).machine,
        Table.nodup_keys_insert (haborted.formed hformed).batches _ _⟩
    exact hstarted.setSession hs

theorem Beside.remove (h : Beside id e e') (hs : s.id = id) : Beside id e (e'.remove s) := by
  have herased : Beside id e { e' with sessions := e'.sessions.erase s.id } := by
    refine ⟨fun other hother => ?_, fun t ht => ?_, h.tasks, h.started, h.formed⟩
    · rw [Table.get?_erase_of_ne _ (hs.symm ▸ hother)]
      exact h.others other hother
    · subst hs
      rw [Table.get?_erase, if_pos rfl] at ht
      cases ht
  exact (herased.abortPrewarm s).updateTables fun t =>
    (Tables.within_invalidateSession t s.id).nextTicket

/-!
# Operations that leave the others alone
-/

/-- From whatever engine on, the operation leaves the others alone. -/
def Spares (id : SessionId) (op : Operation σ π α) : Prop :=
  ∀ e, op.Leaves (Beside id e) (fun _ => Beside id e) (Beside id e)

theorem Spares.bind {op : Operation σ π α} {k : α → Operation σ π β} (h : Spares id op)
    (hk : ∀ a, Spares id (k a)) : Spares id (op >>= k) :=
  fun e => (h e).bind fun a => hk a e

theorem spares_pure (a : α) : Spares id (pure a : Operation σ π α) :=
  fun _ => Operation.leaves_pure fun _ he => he

theorem spares_fail (error : Error) : Spares id (Operation.fail error : Operation σ π α) :=
  fun _ => Operation.leaves_fail fun _ he => he

theorem spares_get_bind {k : Engine σ π → Operation σ π β} (hk : ∀ e, Spares id (k e)) :
    Spares id (get >>= k) :=
  fun e => (Operation.leaves_get (Q := fun _ => Beside id e) fun _ he => he).bind fun e' => hk e' e

theorem spares_updateTables {f : Tables π → Tables π} (hf : ∀ t, (f t).nextTicket = t.nextTicket) :
    Spares id (Operation.updateTables f : Operation σ π Unit) :=
  fun _ => Operation.leaves_modify fun _ he => he.updateTables hf

theorem spares_find_bind {k : Session → Operation σ π α} (hk : ∀ s, s.id = id → Spares id (k s)) :
    Spares id (Operation.find id >>= k) := by
  intro e
  refine (Operation.leaves_find (Q := fun s e' => Beside id e e' ∧ s.id = id)
    (fun e' s he hs => ⟨he, he.keyed s hs⟩) fun _ he _ => he).bind fun s => ?_
  intro e' he
  exact hk s he.right e e' he.left

theorem spares_use_bind {k : Session → Operation σ π α} (hk : ∀ s, s.id = id → Spares id (k s)) :
    Spares id (Operation.use id >>= k) := by
  intro e
  refine (Operation.leaves_use (Q := fun s e' => Beside id e e' ∧ s.id = id)
    (fun e' s he hs => ⟨he.setSession (he.keyed s hs), he.keyed s hs⟩)
    fun _ he _ => he).bind fun s => ?_
  intro e' he
  exact hk s he.right e e' he.left

theorem spares_setSession (hs : s.id = id) :
    Spares id (Operation.setSession s : Operation σ π Unit) :=
  fun _ => Operation.leaves_modify fun _ he => he.setSession hs

/-!
# Steps leave the others alone
-/

/-- The demand is met from the cache. -/
def Demand.consults : Demand → Bool
  | .diagnostics _ _ | .applyEdit _ => true
  | .applyEdits edits => !edits.isEmpty
  | _ => false

theorem Demand.spares_step {d : Demand} (hd : ¬ d.consults) :
    Spares id ((Stage.asked d).step sv id) := by
  have hdone {γ : Type} {op : Operation σ π γ} (hop : Spares id op) (f : γ → Answer) :
      Spares id (do pure (.answered (← (do pure (f (← op))))) : Operation σ π Stage) :=
    (hop.bind fun _ => spares_pure _).bind fun _ => spares_pure _
  cases d with
  | applyEdits edits =>
      cases edits with
      | nil => exact hdone (fun e => Operation.leaves_fail_bind fun _ he => he) _
      | cons edit edits => exact absurd rfl hd
  | commit => exact spares_use_bind fun _ _ => spares_pure _
  | rollback =>
      refine hdone (spares_use_bind fun s hs => ?_) _
      refine (spares_setSession ?_).bind fun _ => spares_pure _
      exact hs
  | pendingEdits => exact hdone (spares_use_bind fun _ _ => spares_pure _) _
  | invalidateProject p =>
      refine hdone (spares_use_bind fun s hs => ?_) _
      have hdrops : Spares id (do
          Operation.updateTables fun t => t.invalidateDownstream id s.graph p
          pure (Tables.affectedBy s.graph p) : Operation σ π (List ProjectId)) :=
        (spares_updateTables fun t =>
          (Tables.within_invalidateDownstream t _ _ _).nextTicket).bind fun _ => spares_pure _
      by_cases hp : s.graph.contains p
      · simp only [hp]
        exact hdrops
      · simp only [hp]
        exact (spares_fail _).bind fun _ => hdrops
  | graphSummary => exact hdone (spares_use_bind fun _ _ => spares_pure _) _
  | refresh => exact spares_use_bind fun _ _ => spares_pure _
  | reload path =>
      refine spares_find_bind fun s _ => ?_
      cases hfound : s.workspace.document? (s.workspace.resolve path) with
      | none =>
          simp only [hfound]
          exact spares_fail _
      | some found =>
          simp only [hfound]
          exact spares_pure _
  | pause =>
      refine Spares.bind (Spares.bind (spares_use_bind fun s hs => ?_) fun _ => spares_pure _)
        fun _ => spares_pure _
      exact spares_setSession hs
  | unpause =>
      refine Spares.bind (Spares.bind (spares_use_bind fun s hs => ?_) fun _ => spares_pure _)
        fun _ => spares_pure _
      exact spares_setSession hs
  | status =>
      refine Spares.bind (Spares.bind (spares_use_bind fun s hs => ?_) fun _ => spares_pure _)
        fun _ => spares_pure _
      exact spares_get_bind fun _ => spares_pure _
  | finish =>
      refine Spares.bind (Spares.bind (spares_find_bind fun s hs => ?_) fun _ => spares_pure _)
        fun _ => spares_pure _
      exact fun e => Operation.leaves_modify fun _ he => he.remove hs
  | diagnostics project? analyze? => exact absurd rfl hd
  | applyEdit edit => exact absurd rfl hd

theorem Stage.spares_step {stage : Stage} (hstage : ∀ d, stage = .asked d → ¬ d.consults) :
    Spares id (stage.step sv id) := by
  have hdrops (g : Graph) (p : ProjectId) : ∀ t : Tables π,
      (t.invalidateDownstream id g p).nextTicket = t.nextTicket :=
    fun t => (Tables.within_invalidateDownstream t _ _ _).nextTicket
  cases stage with
  | asked d => exact d.spares_step (hstage d rfl)
  | writing left report =>
      cases left with
      | nil =>
          refine Spares.bind (spares_find_bind fun s hs => ?_) fun _ => spares_pure _
          split
          · refine (spares_setSession ?_).bind fun _ => spares_pure _
            exact hs
          · exact spares_pure _
      | cons edit left =>
          intro e
          refine (Operation.leaves_writeText (Q := fun _ => Beside id e)
            fun _ he => he.withStore _).bind fun result => ?_
          cases result <;> exact spares_pure _ e
  | folding edit left report =>
      refine Spares.bind (spares_find_bind fun s hs => ?_) fun _ => spares_pure _
      refine (spares_setSession ((s.alike_settle edit).id.trans hs)).bind fun _ => ?_
      exact (spares_updateTables (hdrops _ _)).bind fun _ => spares_pure _
  | reading path p known =>
      intro e
      refine (Operation.leaves_readText (Q := fun _ => Beside id e) fun _ he => he).bind
        fun result => ?_
      cases result with
      | error cause => exact spares_fail _ e
      | ok content =>
          simp only
          split <;> exact spares_pure _ e
  | updating path p content =>
      refine Spares.bind (spares_find_bind fun s hs => ?_) fun _ => spares_pure _
      have hid : (((s.updateDocument path content).map Prod.snd).getD s).id = id := by
        rw [Session.updateDocument_getD]
        exact hs
      refine (spares_setSession hid).bind fun _ => ?_
      exact (spares_updateTables (hdrops _ _)).bind fun _ => spares_pure _
  | loading source root =>
      intro e
      refine (Operation.leaves_load (Q := fun _ => Beside id e) (fun _ _ he => he.withStore _)
        fun _ he => he.withStore _).bind fun _ => spares_pure _ e
  | replacing w =>
      refine Spares.bind (spares_find_bind fun s hs => ?_) fun _ => spares_pure _
      refine Spares.bind (fun _ => Operation.leaves_modify fun _ he => he.abortPrewarm s)
        fun _ => ?_
      have hrenewed : (renewed s w).id = id := hs
      refine (spares_setSession hrenewed).bind fun _ => ?_
      refine (spares_updateTables fun t =>
        (Tables.within_invalidateSession t id).nextTicket).bind fun _ => ?_
      exact Spares.bind (fun _ => Operation.leaves_modify fun _ he => he.prewarm hrenewed) fun _ =>
        spares_pure _
  | answered answer => exact spares_pure _
  | failed halt => exact spares_pure _

/-- A step that does not turn to the cache leaves the others alone. -/
theorem Stage.beside_advance (sv : Services σ π)
    (hkeyed : ∀ s, e.sessions.get? id = some s → s.id = id) (stage : Stage)
    (hstage : ∀ d, stage = .asked d → d.consults → e.sessions.get? id = none) :
    Beside id e (stage.advance sv id e).2 := by
  by_cases hconsults : ∃ d, stage = .asked d ∧ d.consults
  · rcases hconsults with ⟨d, rfl, hd⟩
    rw [advance_absent (hstage d rfl hd) rfl]
    exact .refl hkeyed
  · have hspares : Spares id (stage.step sv id) :=
      Stage.spares_step fun d hd hd' => hconsults ⟨d, hd, hd'⟩
    have hrun := hspares e e (.refl hkeyed)
    unfold Stage.advance
    rcases hout : (stage.step sv id).run e with ⟨halt | next, e'⟩ <;>
      rw [hout] at hrun <;> exact hrun

end Engine
end Ripple
