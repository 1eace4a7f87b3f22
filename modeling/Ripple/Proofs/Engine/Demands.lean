import Ripple.Engine.Events
import Ripple.Proofs.Engine.Operations

/-!
# Demands on sessions

What can be asked of a session once it has been started, and what comes of it. An
operation may return or halt, and it leaves an engine in either case: what it leaves
is worked out along the operations that it is made of.
-/

namespace Ripple

open Cache

variable {σ π α β : Type}

/-!
# Demands and their answers
-/

namespace Engine

/-- All that can be asked of a session. -/
inductive Demand where
  | applyEdit (edit : DocumentEdit)
  | applyEdits (edits : List DocumentEdit)
  | commit
  | rollback
  | pendingEdits
  | diagnostics (project? : Option ProjectId) (analyze? : Option Bool)
  | invalidateProject (p : ProjectId)
  | graphSummary
  | refresh
  | reload (path : Path)
  | pause
  | unpause
  | status
  | finish

/-- The status of a session tells of times and of the cache, so it is not kept here. -/
inductive Answer where
  | edited (outcome : EditOutcome)
  | committed (report : CommitReport)
  | discarded (count : Nat)
  | pending (edits : List PendingEdit)
  | diagnosed (report : DiagnosticsReport)
  | invalidated (projects : List ProjectId)
  | summarized (summary : GraphSummary)
  | done
  deriving DecidableEq, Repr

/-- The operation that meets a demand. -/
def Demand.operation (sv : Services σ π) (id : SessionId) : Demand → Operation σ π Answer
  | .applyEdit edit => do pure (.edited (← Engine.applyEdit sv id edit))
  | .applyEdits edits => do pure (.edited (← Engine.applyEdits sv id edits))
  | .commit => do pure (.committed (← Engine.commit sv id))
  | .rollback => do pure (.discarded (← Engine.rollback id))
  | .pendingEdits => do pure (.pending (← Engine.pendingEdits id))
  | .diagnostics project? analyze? => do
      pure (.diagnosed (← Engine.diagnostics sv id project? analyze?))
  | .invalidateProject p => do pure (.invalidated (← Engine.invalidateProject id p))
  | .graphSummary => do pure (.summarized (← Engine.graphSummary id))
  | .refresh => do
      Engine.refresh sv id
      pure .done
  | .reload path => do pure (.invalidated (← Engine.reload sv id path))
  | .pause => do
      Engine.pause id
      pure .done
  | .unpause => do
      Engine.unpause id
      pure .done
  | .status => do
      let _ ← Engine.status id
      pure .done
  | .finish => do
      Engine.finish id
      pure .done

end Engine

/-!
# What an operation leaves
-/

namespace Operation

/-- From engines of one kind the operation returns answers and engines of another, or it
halts and leaves engines of a third. -/
def Leaves (op : Operation σ π α) (P : Engine σ π → Prop) (Q : α → Engine σ π → Prop)
    (H : Engine σ π → Prop) : Prop :=
  ∀ e, P e →
    match op.run e with
    | (.ok a, e') => Q a e'
    | (.error _, e') => H e'

variable {P H : Engine σ π → Prop} {Q : α → Engine σ π → Prop} {R : β → Engine σ π → Prop}

theorem Leaves.imp {P' H' : Engine σ π → Prop} {Q' : α → Engine σ π → Prop}
    {op : Operation σ π α} (h : op.Leaves P Q H) (hP : ∀ e, P' e → P e)
    (hQ : ∀ a e, Q a e → Q' a e) (hH : ∀ e, H e → H' e) : op.Leaves P' Q' H' := by
  intro e he
  have hrun := h e (hP e he)
  rcases hout : op.run e with ⟨_ | a, e'⟩ <;> rw [hout] at hrun
  · exact hH e' hrun
  · exact hQ a e' hrun

theorem Leaves.bind {op : Operation σ π α} {k : α → Operation σ π β} (h : op.Leaves P Q H)
    (hk : ∀ a, (k a).Leaves (Q a) R H) : (op >>= k).Leaves P R H := by
  intro e he
  have hrun := h e he
  rw [run_bind]
  rcases hout : op.run e with ⟨_ | a, e'⟩ <;> rw [hout] at hrun
  · exact hrun
  · exact hk a e' hrun

/-- What has nothing to do with the engine goes on to hold. -/
theorem Leaves.and_const {op : Operation σ π α} (h : op.Leaves P Q H) (p : Prop) :
    op.Leaves (fun e => P e ∧ p) (fun a e => Q a e ∧ p) H := by
  intro e he
  have hrun := h e he.left
  rcases hout : op.run e with ⟨_ | a, e'⟩ <;> rw [hout] at hrun
  · exact hrun
  · exact ⟨hrun, he.right⟩

theorem leaves_pure {a : α} (h : ∀ e, P e → Q a e) :
    (pure a : Operation σ π α).Leaves P Q H := h

theorem leaves_fail {error : Error} (h : ∀ e, P e → H e) :
    (fail error : Operation σ π α).Leaves P Q H := h

/-- Nothing follows on a failure. -/
theorem leaves_fail_bind {error : Error} {k : α → Operation σ π β} (h : ∀ e, P e → H e) :
    (fail error >>= k).Leaves P R H := h

theorem leaves_ofExcept {result : Except Error α} (hok : ∀ a e, P e → Q a e)
    (herror : ∀ e, P e → H e) : (ofExcept result : Operation σ π α).Leaves P Q H := by
  cases result with
  | ok a => exact leaves_pure (hok a)
  | error error => exact leaves_fail herror

theorem leaves_get {Q : Engine σ π → Engine σ π → Prop} (h : ∀ e, P e → Q e e) :
    (get : Operation σ π (Engine σ π)).Leaves P Q H := h

theorem leaves_set {e₁ : Engine σ π} {Q : PUnit → Engine σ π → Prop} (h : ∀ e, P e → Q ⟨⟩ e₁) :
    (set e₁ : Operation σ π PUnit).Leaves P Q H := h

theorem leaves_modify {f : Engine σ π → Engine σ π} {Q : PUnit → Engine σ π → Prop}
    (h : ∀ e, P e → Q ⟨⟩ (f e)) : (modify f : Operation σ π PUnit).Leaves P Q H := h

theorem leaves_find {id : SessionId} {Q : Session → Engine σ π → Prop}
    (hfound : ∀ e s, P e → e.sessions.get? id = some s → Q s e)
    (hmissing : ∀ e, P e → e.sessions.get? id = none → H e) :
    (find id : Operation σ π Session).Leaves P Q H := by
  unfold find
  refine (leaves_get (Q := fun a e => a = e ∧ P e) fun e he => ⟨rfl, he⟩).bind fun e₀ => ?_
  cases hs : e₀.sessions.get? id with
  | none =>
      refine leaves_fail ?_
      rintro e ⟨rfl, he⟩
      exact hmissing e₀ he hs
  | some s =>
      refine leaves_pure ?_
      rintro e ⟨rfl, he⟩
      exact hfound e₀ s he hs

theorem leaves_use {id : SessionId} {Q : Session → Engine σ π → Prop}
    (hfound : ∀ e s, P e → e.sessions.get? id = some s →
      Q { s with lastAccess := e.clock } (e.setSession { s with lastAccess := e.clock }))
    (hmissing : ∀ e, P e → e.sessions.get? id = none → H e) :
    (use id : Operation σ π Session).Leaves P Q H := by
  unfold use
  refine (leaves_find (Q := fun s e => P e ∧ e.sessions.get? id = some s)
    (fun e s he hs => ⟨he, hs⟩) hmissing).bind fun s => ?_
  intro e he
  exact hfound e s he.left he.right

/-- A file is written, or not. -/
theorem leaves_writeText {sv : Services σ π} {path : Path} {text : String}
    {Q : Except FileError Unit → Engine σ π → Prop}
    (h : ∀ e, P e → Q (sv.store.write e.store path text).1
      { e with store := (sv.store.write e.store path text).2 }) :
    (writeText sv path text).Leaves P Q H := h

theorem leaves_readText {sv : Services σ π} {path : Path}
    {Q : Except FileError String → Engine σ π → Prop}
    (h : ∀ e, P e → Q (sv.store.read e.store path) e) : (readText sv path).Leaves P Q H := h

theorem leaves_load {sv : Services σ π} {source : Source} {root : Path}
    {Q : Workspace → Engine σ π → Prop}
    (hloaded : ∀ e w, P e → Q w { e with store := (sv.store.load e.store source root).2 })
    (hfailed : ∀ e, P e → H { e with store := (sv.store.load e.store source root).2 }) :
    (load sv source root).Leaves P Q H := by
  unfold load
  refine (leaves_get (Q := fun a e => a = e ∧ P e) fun e he => ⟨rfl, he⟩).bind fun e₀ => ?_
  refine (leaves_set (Q := fun _ e => e = { e₀ with
    store := (sv.store.load e₀.store source root).2 } ∧ P e₀) ?_).bind fun _ => ?_
  · rintro e ⟨rfl, he⟩
    exact ⟨rfl, he⟩
  · cases (sv.store.load e₀.store source root).1 with
    | ok w =>
        refine leaves_pure ?_
        rintro e ⟨rfl, he⟩
        exact hloaded e₀ w he
    | error cause =>
        refine leaves_fail ?_
        rintro e ⟨rfl, he⟩
        exact hfailed e₀ he

/-!
# Plans change the schedule only
-/

theorem leaves_ofExit {exit : Schedule.Exit α} (hreturned : ∀ a e, P e → Q a e)
    (hhalted : ∀ e, P e → H e) : (ofExit exit : Operation σ π α).Leaves P Q H := by
  cases exit with
  | returned a => exact leaves_pure (hreturned a)
  | blocked => exact hhalted
  | panicked => exact hhalted

theorem leaves_mapM {f : β → Operation σ π α} (h : ∀ b, (f b).Leaves P (fun _ => P) H)
    (bs : List β) : (bs.mapM f).Leaves P (fun _ => P) H := by
  induction bs with
  | nil => exact leaves_pure fun _ he => he
  | cons b bs ih =>
      rw [List.mapM_cons]
      refine (h b).bind fun a => ?_
      refine ih.bind fun as => ?_
      exact leaves_pure fun _ he => he

variable {I : Engine σ π → Prop}

theorem leaves_perform {sv : Services σ π} {p : Plan π α}
    (hI : ∀ e schedule, I e → I { e with schedule := schedule }) :
    (perform sv p).Leaves I (fun _ => I) I := by
  unfold perform
  refine (leaves_get (Q := fun a e => a = e ∧ I e) fun e he => ⟨rfl, he⟩).bind fun e₀ => ?_
  refine (leaves_set (Q := fun _ => I) ?_).bind fun _ => ?_
  · rintro e ⟨rfl, he⟩
    exact hI _ _ he
  · exact leaves_ofExit (fun _ _ he => he) fun _ he => he

theorem leaves_performAll {sv : Services σ π} {turns : Nat} {ps : List (Plan π α)}
    (hI : ∀ e schedule, I e → I { e with schedule := schedule }) :
    (performAll sv turns ps).Leaves I (fun _ => I) I := by
  unfold performAll
  refine (leaves_get (Q := fun a e => a = e ∧ I e) fun e he => ⟨rfl, he⟩).bind fun e₀ => ?_
  refine (leaves_set (Q := fun _ => I) ?_).bind fun _ => ?_
  · rintro e ⟨rfl, he⟩
    exact hI _ _ he
  · exact leaves_mapM (fun exit => leaves_ofExit (fun _ _ he => he) fun _ he => he) _

end Operation
end Ripple
