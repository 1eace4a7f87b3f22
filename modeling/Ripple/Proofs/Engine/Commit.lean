import Ripple.Proofs.Engine.Edits

/-!
# What a commit leaves

A commit writes the pending texts and folds each text that was written into the
workspace of the session. If nothing failed then the workspace has had all texts
folded in, one after the other, and the session is otherwise as it was.
-/

namespace Ripple

/-- The session once one of its pending texts is written. -/
def Session.settle (s : Session) (edit : PendingEdit) : Session :=
  let cleared := (s.clearPendingIf edit.path edit.text).getD s
  ((cleared.updateDocument edit.path edit.text).map Prod.snd).getD cleared

namespace Session

theorem Formed.clear {s : Session} (h : s.Formed) (path : Path) (text : String) :
    ((s.clearPendingIf path text).getD s).Formed := by
  cases hcleared : s.clearPendingIf path text with
  | none => exact h
  | some s' => exact h.step (.clear hcleared)

theorem Formed.update {s : Session} (h : s.Formed) (path : Path) (text : String) :
    (((s.updateDocument path text).map Prod.snd).getD s).Formed := by
  cases hupdated : s.updateDocument path text with
  | none => exact h
  | some found => exact h.step (.update hupdated)

theorem Formed.settle {s : Session} (h : s.Formed) (edit : PendingEdit) :
    (s.settle edit).Formed :=
  (h.clear edit.path edit.text).update edit.path edit.text

/-- Two sessions are of one kind if they build the same graph with the same analyzers. -/
structure Alike (s s' : Session) : Prop where
  id : s'.id = s.id
  analyzers : s'.analyzers = s.analyzers
  graph : s'.graph = s.graph

theorem Alike.trans {s s' s'' : Session} (h : s.Alike s') (h' : s'.Alike s'') : s.Alike s'' :=
  ⟨h'.id.trans h.id, h'.analyzers.trans h.analyzers, h'.graph.trans h.graph⟩

theorem alike_settle (s : Session) (edit : PendingEdit) : s.Alike (s.settle edit) := by
  unfold settle clearPendingIf
  rw [updateDocument_getD]
  split <;> exact ⟨rfl, rfl, rfl⟩

theorem workspace_settle (s : Session) (edit : PendingEdit) :
    (s.settle edit).workspace =
      (s.workspace.setContent? edit.path edit.text).getD s.workspace := by
  unfold settle clearPendingIf
  rw [updateDocument_getD]
  split <;> rfl

end Session

namespace Engine

open Cache

variable {σ π : Type} {sv : Services σ π} {streams : Set (List UInt8)} {id : SessionId}
  {e e' : Engine σ π} {s : Session} {report report' : CommitReport}

/-!
# One edit
-/

/-- The engine once a pending text is written and folded into its session. -/
def wrote (sv : Services σ π) (id : SessionId) (e : Engine σ π) (s : Session)
    (edit : PendingEdit) : Engine σ π :=
  let stored := { e with store := (sv.store.write e.store edit.path edit.text).2 }
  (stored.setSession (s.settle edit)).updateTables fun t =>
    t.invalidateDownstream id (s.settle edit).graph edit.project

theorem hosts_wrote (h : Hosts sv streams id e s) (edit : PendingEdit) :
    Hosts sv streams id (wrote sv id e s edit) (s.settle edit) := by
  have hstored : Hosts sv streams id
      { e with store := (sv.store.write e.store edit.path edit.text).2 } s :=
    ⟨h.schedule, h.session, h.keyed, h.formed⟩
  have hset := hstored.setSession (h.formed.settle edit) (s.alike_settle edit).id
  exact hset.updateTables (Tables.within_invalidateDownstream _ _ _ _)

/-- An edit that cannot be written is reported; any other is folded in. -/
theorem Hosts.of_returns_commitEdit (h : Hosts sv streams id e s) {edit : PendingEdit}
    (hreturns : (commitEdit sv id report edit).Returns e report' e') :
    report'.failed ≠ [] ∨ (report'.failed = report.failed ∧ e' = wrote sv id e s edit) := by
  unfold commitEdit at hreturns
  rcases Operation.returns_bind_iff.mp hreturns with ⟨result, e₁, hwrite, hrest⟩
  rcases Operation.returns_writeText_iff.mp hwrite with ⟨rfl, rfl⟩
  cases hresult : (sv.store.write e.store edit.path edit.text).1 with
  | error cause =>
      rw [hresult] at hrest
      rcases Operation.returns_pure_iff.mp hrest with ⟨rfl, rfl⟩
      exact .inl (by simp)
  | ok _ =>
      rw [hresult] at hrest
      rcases Operation.returns_bind_iff.mp hrest with ⟨found, _, hfind, hrest⟩
      rcases Operation.returns_find_iff.mp hfind with ⟨hfound, rfl⟩
      cases hfound.symm.trans h.session
      rcases Operation.returns_bind_iff.mp hrest with ⟨_, _, hset, hrest⟩
      cases Operation.returns_setSession_iff.mp hset
      rcases Operation.returns_bind_iff.mp hrest with ⟨_, _, hupdate, hrest⟩
      cases Operation.returns_updateTables_iff.mp hupdate
      rcases Operation.returns_pure_iff.mp hrest with ⟨rfl, rfl⟩
      exact .inr ⟨rfl, rfl⟩

/-- A failure stays in the report. -/
theorem failed_of_returns_commitEdit {edit : PendingEdit}
    (hreturns : (commitEdit sv id report edit).Returns e report' e')
    (hfailed : report.failed ≠ []) : report'.failed ≠ [] := by
  unfold commitEdit at hreturns
  rcases Operation.returns_bind_iff.mp hreturns with ⟨result, e₁, hwrite, hrest⟩
  cases result with
  | error cause =>
      rcases Operation.returns_pure_iff.mp hrest with ⟨rfl, rfl⟩
      simp
  | ok _ =>
      rcases Operation.returns_bind_iff.mp hrest with ⟨_, _, _, hrest⟩
      rcases Operation.returns_bind_iff.mp hrest with ⟨_, _, _, hrest⟩
      rcases Operation.returns_bind_iff.mp hrest with ⟨_, _, _, hrest⟩
      rcases Operation.returns_pure_iff.mp hrest with ⟨rfl, rfl⟩
      exact hfailed

theorem returns_commitEdit (hsession : e.sessions.get? id = some s) (report : CommitReport)
    (edit : PendingEdit) (hwrites : (sv.store.write e.store edit.path edit.text).1 = .ok ()) :
    (commitEdit sv id report edit).Returns e
      { report with
        written := report.written ++ [edit.path]
        invalidated :=
          addNew report.invalidated (Tables.affectedBy (s.settle edit).graph edit.project) }
      (wrote sv id e s edit) := by
  unfold commitEdit
  refine Operation.returns_bind_iff.mpr
    ⟨_, _, Operation.returns_writeText_iff.mpr ⟨rfl, rfl⟩, ?_⟩
  rw [hwrites]
  refine Operation.returns_bind_iff.mpr
    ⟨s, _, Operation.returns_find_iff.mpr ⟨hsession, rfl⟩, ?_⟩
  refine Operation.returns_bind_iff.mpr ⟨⟨⟩, _, Operation.returns_setSession_iff.mpr rfl, ?_⟩
  refine Operation.returns_bind_iff.mpr ⟨⟨⟩, _, Operation.returns_updateTables_iff.mpr rfl, ?_⟩
  exact Operation.returns_pure_iff.mpr ⟨rfl, rfl⟩

/-!
# All edits
-/

theorem failed_of_returns_commitEdits {edits : List PendingEdit}
    (hreturns : (edits.foldlM (commitEdit sv id) report).Returns e report' e')
    (hfailed : report.failed ≠ []) : report'.failed ≠ [] := by
  induction edits generalizing e report with
  | nil =>
      rcases Operation.returns_pure_iff.mp hreturns with ⟨rfl, rfl⟩
      exact hfailed
  | cons edit rest ih =>
      rw [List.foldlM_cons] at hreturns
      rcases Operation.returns_bind_iff.mp hreturns with ⟨report₁, e₁, hfirst, hrest⟩
      exact ih hrest (failed_of_returns_commitEdit hfirst hfailed)

/-- If no edit failed then all are folded in, in order. -/
theorem Hosts.of_returns_commitEdits (h : Hosts sv streams id e s) {edits : List PendingEdit}
    (hreturns : (edits.foldlM (commitEdit sv id) report).Returns e report' e')
    (hwritten : report'.failed = []) :
    ∃ s', Hosts sv streams id e' s' ∧ s.Alike s' ∧
      s'.workspace = s.workspace.commitAll edits := by
  induction edits generalizing e s report with
  | nil =>
      rcases Operation.returns_pure_iff.mp hreturns with ⟨rfl, rfl⟩
      exact ⟨s, h, ⟨rfl, rfl, rfl⟩, rfl⟩
  | cons edit rest ih =>
      rw [List.foldlM_cons] at hreturns
      rcases Operation.returns_bind_iff.mp hreturns with ⟨report₁, e₁, hfirst, hrest⟩
      rcases h.of_returns_commitEdit hfirst with hfailed | ⟨_, rfl⟩
      · exact absurd hwritten (failed_of_returns_commitEdits hrest hfailed)
      · rcases ih (hosts_wrote h edit) hrest with ⟨s', hhosts, halike, hworkspace⟩
        refine ⟨s', hhosts, (s.alike_settle edit).trans halike, ?_⟩
        rw [hworkspace, Session.workspace_settle]
        rfl

theorem Hosts.returns_commitEdits (h : Hosts sv streams id e s) (edits : List PendingEdit)
    (report : CommitReport)
    (hwrites : ∀ store path text, (sv.store.write store path text).1 = .ok ()) :
    ∃ report' e', (edits.foldlM (commitEdit sv id) report).Returns e report' e' ∧
      report'.failed = report.failed := by
  induction edits generalizing e s report with
  | nil => exact ⟨report, e, Operation.returns_pure_iff.mpr ⟨rfl, rfl⟩, rfl⟩
  | cons edit rest ih =>
      rcases ih (hosts_wrote h edit)
          { report with
            written := report.written ++ [edit.path]
            invalidated :=
              addNew report.invalidated (Tables.affectedBy (s.settle edit).graph edit.project) } with
        ⟨report', e', hrest, hfailed⟩
      have hfirst := returns_commitEdit h.session report edit (hwrites _ _ _)
      refine ⟨report', e', ?_, hfailed⟩
      rw [List.foldlM_cons]
      exact Operation.returns_bind_iff.mpr ⟨_, _, hfirst, hrest⟩

/-!
# The commit
-/

/-- If nothing failed then the workspace has the pending texts folded in. -/
theorem Hosts.of_returns_commit (h : Hosts sv streams id e s)
    (hreturns : (commit sv id).Returns e report' e') (hwritten : report'.failed = []) :
    ∃ s', Hosts sv streams id e' s' ∧ s.Alike s' ∧
      s'.workspace = s.workspace.commitAll s.pendingEdits := by
  unfold commit at hreturns
  rcases Operation.returns_bind_iff.mp hreturns with ⟨used, _, huse, hused⟩
  rcases Operation.returns_use_iff.mp huse with ⟨s₀, hs₀, rfl, rfl⟩
  cases hs₀.symm.trans h.session
  rcases Operation.returns_bind_iff.mp hused with ⟨report₁, e₁, hedits, hedited⟩
  rcases Operation.returns_bind_iff.mp hedited with ⟨found, e₂, hfind, hrest⟩
  rcases Operation.returns_find_iff.mp hfind with ⟨hfound, heq⟩
  subst heq
  by_cases hdone : found.pending.size = 0 && !report₁.written.isEmpty
  · rw [if_pos hdone] at hrest
    rcases Operation.returns_bind_iff.mp hrest with ⟨_, _, hset, hrest⟩
    cases Operation.returns_setSession_iff.mp hset
    rcases Operation.returns_pure_iff.mp hrest with ⟨rfl, rfl⟩
    rcases h.use.of_returns_commitEdits hedits hwritten with ⟨s', hhosts, halike, hworkspace⟩
    cases hfound.symm.trans hhosts.session
    exact ⟨_, hhosts.setSession (hhosts.formed.step (.enter .committed)) rfl,
      ⟨halike.id, halike.analyzers, halike.graph⟩, hworkspace⟩
  · rw [if_neg hdone] at hrest
    rcases Operation.returns_pure_iff.mp hrest with ⟨rfl, rfl⟩
    rcases h.use.of_returns_commitEdits hedits hwritten with ⟨s', hhosts, halike, hworkspace⟩
    exact ⟨s', hhosts, ⟨halike.id, halike.analyzers, halike.graph⟩, hworkspace⟩

/-- If every text can be written then nothing fails. -/
theorem Hosts.returns_commit (h : Hosts sv streams id e s)
    (hwrites : ∀ store path text, (sv.store.write store path text).1 = .ok ()) :
    ∃ report e', (commit sv id).Returns e report e' ∧ report.failed = [] := by
  rcases h.use.returns_commitEdits s.pendingEdits .empty hwrites with ⟨report, e₁, hedits, hfailed⟩
  rcases h.use.of_returns_commitEdits hedits hfailed with ⟨s', hhosts, _⟩
  have hlast : ∃ e', (if s'.pending.size = 0 && !report.written.isEmpty then do
        Operation.setSession { s' with phase := .committed }
        pure report
      else pure report : Operation σ π CommitReport).Returns e₁ report e' := by
    split
    · refine ⟨e₁.setSession { s' with phase := .committed }, ?_⟩
      refine Operation.returns_bind_iff.mpr
        ⟨⟨⟩, _, Operation.returns_setSession_iff.mpr rfl, ?_⟩
      exact Operation.returns_pure_iff.mpr ⟨rfl, rfl⟩
    · exact ⟨e₁, Operation.returns_pure_iff.mpr ⟨rfl, rfl⟩⟩
  rcases hlast with ⟨e', hlast⟩
  refine ⟨report, e', ?_, hfailed⟩
  unfold commit
  refine Operation.returns_bind_iff.mpr
    ⟨_, _, Operation.returns_use_iff.mpr ⟨s, h.session, rfl, rfl⟩, ?_⟩
  refine Operation.returns_bind_iff.mpr ⟨report, e₁, hedits, ?_⟩
  exact Operation.returns_bind_iff.mpr
    ⟨s', e₁, Operation.returns_find_iff.mpr ⟨hhosts.session, rfl⟩, hlast⟩

end Engine
end Ripple
