import Ripple.Proofs.Engine.Stacking
import Ripple.Proofs.Engine.Stages

/-!
# Batches and single edits

The edits of a batch are staged over one workspace, one after the other, and each of them
over what those before it have left. As single edits they come to the same: the session is
the same in the end, and those that are refused are refused for the same reasons.
-/

namespace Ripple

open Cache

variable {σ π : Type}

/-!
# Staging
-/

namespace Session

/-- An edit is refused or staged whenever the session has been used. -/
theorem stageEdit_use (s : Session) (w : Workspace) (edit : DocumentEdit) (now : Nat) :
    ({ s with lastAccess := now } : Session).stageEdit w edit =
      (s.stageEdit w edit).map fun staged => (staged.1, { staged.2 with lastAccess := now }) := by
  have hpending (path : Path) :
      ({ s with lastAccess := now } : Session).pendingText? path = s.pendingText? path := rfl
  unfold stageEdit
  cases w.document? edit.file with
  | none => rfl
  | some found =>
      simp only [hpending]
      cases Change.applyAll ((s.pendingText? found.2.path).getD found.2.content) edit.changes with
      | error refusal => rfl
      | ok text => rfl

end Session

namespace Engine

theorem stageAll_use (w : Workspace) (edits : List DocumentEdit) (s : Session) (now : Nat) :
    stageAll w edits { s with lastAccess := now } =
      ((stageAll w edits s).1, { (stageAll w edits s).2 with lastAccess := now }) := by
  induction edits generalizing s with
  | nil => rfl
  | cons edit rest ih =>
      unfold stageAll
      rw [s.stageEdit_use w edit now]
      cases s.stageEdit w edit with
      | error error =>
          simp only [Except.map, ih]
      | ok staged =>
          simp only [Except.map, ih]

theorem stageAll_append (w : Workspace) (edits edits' : List DocumentEdit) (s : Session) :
    stageAll w (edits ++ edits') s =
      ((stageAll w edits s).1 ++ (stageAll w edits' (stageAll w edits s).2).1,
        (stageAll w edits' (stageAll w edits s).2).2) := by
  induction edits generalizing s with
  | nil => rfl
  | cons edit rest ih =>
      rw [List.cons_append, stageAll, stageAll]
      cases s.stageEdit w edit with
      | error error => simp only [ih, List.cons_append]
      | ok staged => simp only [ih, List.cons_append]

/-- What is refused is not staged. -/
theorem stageAll_refused {w : Workspace} {edit : DocumentEdit} {s : Session} {error : Error}
    (h : s.stageEdit w edit = .error error) :
    stageAll w [edit] s = ([⟨edit.file, none, some error⟩], s) := by
  simp only [stageAll, h]

theorem stageAll_accepted {w : Workspace} {edit : DocumentEdit} {s s' : Session} {p : ProjectId}
    (h : s.stageEdit w edit = .ok (p, s')) :
    stageAll w [edit] s = ([⟨edit.file, some p, none⟩], s') := by
  simp only [stageAll, h]

end Engine

namespace Session

theorem staged_append (s : Session) (edits edits' : List DocumentEdit) :
    s.staged (edits ++ edits') = (s.staged edits).staged edits' := by
  rw [staged, Engine.stageAll_append, staged, workspace_staged]
  rfl

end Session

/-!
# Sessions that are served
-/

namespace Engine

open Operation (Admitted)

variable {sv : Services σ π} {id : SessionId} {e e' : Engine σ π} {s : Session}
  {edits : List DocumentEdit}

/-- The engine has the session, but for when it was last used. -/
structure Has (id : SessionId) (e : Engine σ π) (s : Session) : Prop where
  session : ∃ now, e.sessions.get? id = some { s with lastAccess := now }
  keyed : s.id = id

/-- Both engines have the same session, what is pending in it and its phase included, but
for when it was last used. -/
def Shares (id : SessionId) (e e' : Engine σ π) : Prop :=
  ∃ s now, e.sessions.get? id = some s ∧ e'.sessions.get? id = some { s with lastAccess := now }

theorem Has.shares (h : Has id e s) (h' : Has id e' s) : Shares id e e' := by
  obtain ⟨now, hsession⟩ := h.session
  obtain ⟨now', hsession'⟩ := h'.session
  exact ⟨_, now', hsession, hsession'⟩

/-- Whatever comes of its impacts, a batch is staged. -/
theorem Has.run_batch (sv : Services σ π) (h : Has id e s) (hedits : edits ≠ []) :
    ∃ result e', Admitted result ∧ Has id e' (s.staged edits) ∧
      (Engine.applyEdits sv id edits).run e =
        (result.map fun found => ⟨(stageAll s.workspace edits s).1, found⟩, e') := by
  obtain ⟨now, hsession⟩ := h.session
  have hbatch : e.stagedIn { s with lastAccess := now } edits =
      ((stageAll s.workspace edits s).1, { s.staged edits with lastAccess := e.clock }) :=
    stageAll_use s.workspace edits s e.clock
  have hkeyed : (s.staged edits).id = id := (Session.id_stageAll ..).trans h.keyed
  obtain ⟨result, schedule, hadmitted, hrun⟩ := Engine.run_batch sv hsession hedits
  rw [hbatch] at hrun
  refine ⟨result, _, hadmitted, ⟨⟨e.clock, ?_⟩, hkeyed⟩, hrun⟩
  exact get?_setSession (t := { s.staged edits with lastAccess := e.clock }) hkeyed

/-- Its answer tells how the edits have come out. -/
theorem Has.applyEdits (sv : Services σ π) (h : Has id e s) (hedits : edits ≠ []) :
    ∃ answer e', ((Demand.applyEdits edits).operation sv id).run e = (answer, e') ∧
      Tells (stageAll s.workspace edits s).1 answer ∧ Has id e' (s.staged edits) := by
  obtain ⟨result, e', hadmitted, hhas, hrun⟩ := h.run_batch sv hedits
  refine ⟨_, e', ?_, tells_map hadmitted _, hhas⟩
  change (Engine.applyEdits sv id edits >>= _).run e = _
  rw [Operation.run_bind, hrun]
  cases result <;> rfl

/-!
# Single edits
-/

/-- Where nothing has been edited there is no impact to be worked out. -/
theorem returns_impacts_nil (sv : Services σ π) (s : Session) (e : Engine σ π) :
    (impacts sv s []).Returns e [] e := by
  have hnone : affected s.graph [] = [] := by
    simp [affected]
  have hdrive : e.schedule.driveAll sv.backend (turns s.graph) ([] : List (Plan π Impact)) =
      ([], e.schedule) := by
    unfold Schedule.driveAll turns
    rfl
  unfold impacts
  rw [hnone]
  exact Operation.returns_bind_iff.mpr
    ⟨e, e, Operation.returns_get_iff.mpr ⟨rfl, rfl⟩, Operation.returns_performAll hdrive⟩

theorem run_applyEdit {edit : DocumentEdit} {outcome : EditOutcome}
    (h : (Engine.applyEdits sv id [edit]).Returns e outcome e') :
    ((Demand.applyEdit edit).operation sv id).run e =
      ((outcome.alone.map Answer.edited).mapError Halt.failed, e') := by
  change ((Engine.applyEdits sv id [edit] >>= _) >>= _).run e = _
  rw [Operation.run_bind, h.run_bind, EditOutcome.alone]
  cases outcome.edits.head?.bind EditResult.error <;> rfl

/-- An edit that is refused leaves everything as it was, but for the time of its session. -/
theorem run_refused (sv : Services σ π) (hsession : e.sessions.get? id = some s)
    {edit : DocumentEdit} {error : Error} (hedit : s.stageEdit s.workspace edit = .error error) :
    ((Demand.applyEdit edit).operation sv id).run e =
      (.error (.failed error), (e.setSession { s with lastAccess := e.clock }).setSession
        { s with lastAccess := e.clock }) := by
  have hbatch : e.stagedIn s [edit] =
      ([⟨edit.file, none, some error⟩], { s with lastAccess := e.clock }) := by
    rw [stagedIn, stageAll_use, stageAll_refused hedit]
  have hrun : (Engine.applyEdits sv id [edit]).run e = _ :=
    run_applyEdits hsession (List.cons_ne_nil edit [])
  rw [hbatch] at hrun
  have hreturns : (Engine.applyEdits sv id [edit]).Returns e
      ⟨[⟨edit.file, none, some error⟩], []⟩ _ :=
    hrun.trans ((returns_impacts_nil sv _ _).run_bind _)
  exact run_applyEdit hreturns

theorem Has.refused (sv : Services σ π) (h : Has id e s) {edit : DocumentEdit} {error : Error}
    (hedit : s.stageEdit s.workspace edit = .error error) :
    ∃ e', ((Demand.applyEdit edit).operation sv id).run e = (.error (.failed error), e') ∧
      Has id e' s := by
  obtain ⟨now, hsession⟩ := h.session
  have hlater : ({ s with lastAccess := now } : Session).stageEdit s.workspace edit =
      .error error := by
    rw [s.stageEdit_use, hedit]
    rfl
  refine ⟨_, run_refused sv hsession hlater, ⟨e.clock, ?_⟩, h.keyed⟩
  exact get?_setSession (t := { s with lastAccess := e.clock }) h.keyed

/-- An edit that is not refused is staged, and its operation does not fail. -/
theorem Has.accepted (sv : Services σ π) (h : Has id e s) {edit : DocumentEdit} {s' : Session}
    {p : ProjectId} (hedit : s.stageEdit s.workspace edit = .ok (p, s')) :
    ∃ answer e', ((Demand.applyEdit edit).operation sv id).run e = (answer, e') ∧
      Admitted answer ∧ Has id e' s' := by
  obtain ⟨result, e', hadmitted, hhas, hrun⟩ := h.run_batch sv (List.cons_ne_nil edit [])
  rw [Session.staged, stageAll_accepted hedit] at hhas
  rw [stageAll_accepted hedit] at hrun
  have halone : ((Demand.applyEdit edit).operation sv id).run e =
      (result.map fun found => .edited ⟨[⟨edit.file, some p, none⟩], found⟩, e') := by
    change ((Engine.applyEdits sv id [edit] >>= _) >>= _).run e = _
    rw [Operation.run_bind, Operation.run_bind, hrun]
    cases result <;> rfl
  exact ⟨_, e', halone, (tells_map hadmitted _).left, hhas⟩

/-!
# Edits one by one
-/

/-- The refusal of an edit in a batch is that of the edit alone. -/
def Agrees (result : EditResult) (answer : Except Halt Answer) : Prop :=
  ∀ error, result.error = some error ↔ answer = .error (.failed error)

theorem agrees_of_admitted {result : EditResult} {answer : Except Halt Answer}
    (hresult : result.error = none) (hanswer : Admitted answer) : Agrees result answer := by
  intro error
  constructor
  · intro h
    cases hresult.symm.trans h
  · intro h
    rcases hanswer with ⟨a, rfl⟩ | rfl | rfl
    · cases h
    · cases h
    · cases h

theorem agrees_of_refused (file : Path) (project : Option ProjectId) (error : Error) :
    Agrees ⟨file, project, some error⟩ (.error (.failed error)) := by
  intro error'
  constructor
  · intro h
    cases h
    rfl
  · intro h
    cases h
    rfl

/-- An edit alone is staged as it is in a batch. -/
theorem Has.applyEdit (sv : Services σ π) (h : Has id e s) (edit : DocumentEdit) :
    ∃ answer e', ((Demand.applyEdit edit).operation sv id).run e = (answer, e') ∧
      List.Forall₂ Agrees (stageAll s.workspace [edit] s).1 [answer] ∧
      Has id e' (s.staged [edit]) := by
  unfold Session.staged
  cases hedit : s.stageEdit s.workspace edit with
  | error error =>
      obtain ⟨e', hrun, hhas⟩ := h.refused sv hedit
      rw [stageAll_refused hedit]
      exact ⟨_, e', hrun, .cons (agrees_of_refused _ _ _) .nil, hhas⟩
  | ok staged =>
      obtain ⟨p, s'⟩ := staged
      obtain ⟨answer, e', hrun, hadmitted, hhas⟩ := h.accepted sv hedit
      rw [stageAll_accepted hedit]
      exact ⟨answer, e', hrun, .cons (agrees_of_admitted rfl hadmitted) .nil, hhas⟩

/-- Applies edits one by one, whatever becomes of each. -/
def applyEach (sv : Services σ π) (id : SessionId) (edits : List DocumentEdit)
    (e : Engine σ π) : List (Except Halt Answer) × Engine σ π :=
  serve sv id (edits.map .applyEdit) e

theorem Has.applyEach (sv : Services σ π) (h : Has id e s) (edits : List DocumentEdit) :
    List.Forall₂ Agrees (stageAll s.workspace edits s).1 (applyEach sv id edits e).1 ∧
      Has id (applyEach sv id edits e).2 (s.staged edits) := by
  induction edits generalizing e s with
  | nil => exact ⟨.nil, h⟩
  | cons edit rest ih =>
      obtain ⟨answer, e', hrun, hagrees, hhas⟩ := h.applyEdit sv edit
      obtain ⟨hagrees', hhas'⟩ := ih hhas
      have hserve : Engine.applyEach sv id (edit :: rest) e =
          (answer :: (Engine.applyEach sv id rest e').1, (Engine.applyEach sv id rest e').2) := by
        simp only [Engine.applyEach, List.map_cons, serve, hrun]
      have hcons : edit :: rest = [edit] ++ rest := rfl
      rw [hserve, hcons, stageAll_append, Session.staged_append]
      rw [Session.workspace_staged] at hagrees'
      exact ⟨List.rel_append hagrees hagrees', hhas'⟩

/-!
# Batches are sequences
-/

def applyBatch (sv : Services σ π) (id : SessionId) (edits : List DocumentEdit)
    (e : Engine σ π) : Except Halt Answer × Engine σ π :=
  ((Demand.applyEdits edits).operation sv id).run e

/-- An edit is refused by its operation when it is not staged. -/
theorem Has.stageEdit_eq (h : Has id e s) {edit : DocumentEdit} {error : Error}
    (hrefused : (((Demand.applyEdit edit).operation sv id).run e).1 = .error (.failed error)) :
    s.stageEdit s.workspace edit = .error error := by
  cases hedit : s.stageEdit s.workspace edit with
  | error error' =>
      obtain ⟨e', hrun, _⟩ := h.refused sv hedit
      rw [hrun] at hrefused
      cases hrefused
      rfl
  | ok staged =>
      obtain ⟨answer, e', hrun, hadmitted, _⟩ := h.accepted sv hedit
      rw [hrun] at hrefused
      have hagrees : Agrees ⟨edit.file, none, none⟩ answer := agrees_of_admitted rfl hadmitted
      cases (hagrees error).mpr hrefused

/-- An empty batch is refused, and others are staged. -/
theorem Has.applyBatch (sv : Services σ π) (h : Has id e s) (edits : List DocumentEdit) :
    Has id (applyBatch sv id edits e).2 (s.staged edits) := by
  cases edits with
  | nil => exact h
  | cons edit rest =>
      obtain ⟨answer, e', hrun, _, hhas⟩ := h.applyEdits sv (List.cons_ne_nil edit rest)
      rw [Engine.applyBatch, hrun]
      exact hhas

/-- A batch comes to what its edits come to one by one. -/
structure Sequences (sv : Services σ π) (id : SessionId) (e : Engine σ π) (s : Session)
    (edits : List DocumentEdit) : Prop where
  session : Shares id (applyBatch sv id edits e).2 (applyEach sv id edits e).2
  /-- A result has an error where the edit alone fails, and then it is the same. -/
  results : ∀ outcome, (applyBatch sv id edits e).1 = .ok (.edited outcome) →
    List.Forall₂ Agrees outcome.edits (applyEach sv id edits e).1
  admitted : Admitted (applyBatch sv id edits e).1
  answered : ∀ streams, Begins sv streams id e s → (∀ u, sv.backend.compile u ≠ .panicked) →
    ∃ outcome, (applyBatch sv id edits e).1 = .ok (.edited outcome)
  /-- An edit that is refused leaves everything as it was, and the batch comes to the same
  without it. -/
  refused : ∀ before edit after error, edits = before ++ edit :: after →
    (((Demand.applyEdit edit).operation sv id).run (applyEach sv id before e).2).1 =
      .error (.failed error) →
    Shares id (applyEach sv id before e).2 (applyEach sv id (before ++ [edit]) e).2 ∧
      Shares id (applyBatch sv id edits e).2 (applyBatch sv id (before ++ after) e).2

theorem batch_sequences (hsession : e.sessions.get? id = some s) (hid : s.id = id)
    (hedits : edits ≠ []) : Sequences sv id e s edits := by
  have h : Has id e s := ⟨⟨s.lastAccess, hsession⟩, hid⟩
  obtain ⟨answer, e', hrun, htells, hbatch⟩ := h.applyEdits sv hedits
  obtain ⟨hagrees, heach⟩ := h.applyEach sv edits
  have hanswer : (applyBatch sv id edits e).1 = answer := congrArg Prod.fst hrun
  constructor
  · exact (h.applyBatch sv edits).shares heach
  · intro outcome houtcome
    rw [hanswer] at houtcome
    subst houtcome
    rwa [htells.edited]
  · rw [hanswer]
    exact htells.left
  · intro streams hbegins hcompiles
    obtain ⟨outcome, _, _, hanswered, _⟩ := hbegins.ready.answers_applyEdits hcompiles hedits
    exact ⟨outcome, congrArg Prod.fst hanswered⟩
  · intro before edit after error hsplit hrefused
    obtain ⟨_, hbefore⟩ := h.applyEach sv before
    have hedit := hbefore.stageEdit_eq hrefused
    have hskip : (s.staged before).staged [edit] = s.staged before := by
      rw [Session.staged, stageAll_refused hedit]
    have hthrough : s.staged (before ++ [edit]) = s.staged before := by
      rw [Session.staged_append, hskip]
    have hrest : s.staged edits = s.staged (before ++ after) := by
      have hone : before ++ edit :: after = before ++ [edit] ++ after := by simp
      rw [hsplit, hone, Session.staged_append, hthrough, Session.staged_append]
    constructor
    · exact hbefore.shares (hthrough ▸ (h.applyEach sv (before ++ [edit])).right)
    · exact (hrest ▸ h.applyBatch sv edits).shares (h.applyBatch sv (before ++ after))

/-- For one, a batch in which an edit that does not fit stands between two edits of the same
file. -/
theorem batch_sequences_linked :
    Sequences remembering ⟨"s"⟩ ((Engine.new .default (Memory.ofWorkspace linked) true).setSession
        linkedStart) linkedStart
      [⟨⟨"/s"⟩, [⟨⟨0, 3⟩, "new"⟩]⟩, ⟨⟨"/./s"⟩, [⟨⟨0, 9⟩, ""⟩]⟩, ⟨⟨"s"⟩, [⟨⟨3, 0⟩, "er"⟩]⟩] :=
  batch_sequences rfl rfl (List.cons_ne_nil _ _)

end Engine
end Ripple
