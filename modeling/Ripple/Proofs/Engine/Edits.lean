import Ripple.Proofs.Engine.Ready

/-!
# Applying edits

A batch changes the pending texts of its session and nothing else there. Its
impacts are those of the projects downstream of the edited ones, each worked out
from uncached builds.
-/

namespace Ripple
namespace Engine

open Cache

variable {σ π : Type} {sv : Services σ π} {streams : Set (List UInt8)} {id : SessionId}
  {e : Engine σ π} {s : Session}

/-!
# Staging
-/

/-- Two sessions differ in their pending texts and their phase at most. -/
structure Staged (s s' : Session) : Prop where
  id : s'.id = s.id
  analyzers : s'.analyzers = s.analyzers
  context : s'.context = s.context

theorem Staged.trans {s s' s'' : Session} (h : Staged s s') (h' : Staged s' s'') :
    Staged s s'' :=
  ⟨h'.id.trans h.id, h'.analyzers.trans h.analyzers, h'.context.trans h.context⟩

theorem staged_stage (s : Session) (edit : PendingEdit) : Staged s (s.stage edit) :=
  ⟨rfl, rfl, rfl⟩

theorem staged_use (s : Session) (now : Nat) : Staged s { s with lastAccess := now } :=
  ⟨rfl, rfl, rfl⟩

theorem staged_stageAll (edits : List DocumentEdit) {w : Workspace} (hw : s.workspace = w)
    (hformed : s.Formed) :
    Staged s (stageAll w edits s).2 ∧ (stageAll w edits s).2.Formed := by
  induction edits generalizing s with
  | nil => exact ⟨⟨rfl, rfl, rfl⟩, hformed⟩
  | cons edit rest ih =>
      unfold stageAll
      cases hedit : s.stageEdit w edit with
      | error error => exact ih hw hformed
      | ok staged =>
          rcases staged with ⟨p, s'⟩
          have hformed' : s'.Formed := hformed.step (.stage (hw ▸ hedit))
          rcases Session.stageEdit_eq_ok_iff.mp hedit with ⟨p, d, text, _, _, _, rfl⟩
          rcases ih (s := s.stage ⟨p.id, d.path, text⟩) hw hformed' with ⟨hstaged, hlast⟩
          exact ⟨(staged_stage s _).trans hstaged, hlast⟩

/-!
# Impacts
-/

/-- What the impact of a project may be, whatever fails. -/
inductive Judges (b : Backend π) (s : Session) (overrides : Overrides) (analyzed : Bool)
    (p : ProjectId) : Impact → Prop where
  | mk {before : Except Error (Held (List Diagnostic))} {built : Except Error (Artifact π)}
      (hbefore : (uncachedListing s.context b p s.analyzers analyzed).Allows
        (before.map Held.value))
      (hbuilt : Plan.Speculates b s.context overrides p built) :
      Judges b s overrides analyzed p
        (impactOf p before (built.bind fun a => Plan.collect b a s.analyzers analyzed))

/-- The impact compares the uncached diagnostics without and with the overrides. -/
def Compares (b : Backend π) (s : Session) (overrides : Overrides) (analyzed : Bool)
    (p : ProjectId) (i : Impact) : Prop :=
  ∃ before after, uncachedListing s.context b p s.analyzers analyzed = .ok before ∧
    uncachedListing (s.context.override overrides) b p s.analyzers analyzed = .ok after ∧
    i = ⟨p, .compute before after, after.any Diagnostic.isError, none⟩

theorem Judges.not_crashes {b : Backend π} {overrides : Overrides} {analyzed : Bool}
    {p : ProjectId} {i : Impact} (h : Judges b s overrides analyzed p i) :
    ¬ Plan.Crashes b s.context overrides p := by
  cases h with
  | mk _ hbuilt => exact hbuilt.not_crashes

/-- Where both uncached builds are listed, the impact compares their lists. -/
theorem Judges.eq_of_listed (h : Hosts sv streams id e s)
    (hcompiles : ∀ u, ∃ a, sv.backend.compile u = .compiled a) {overrides : Overrides}
    {analyzed : Bool} {p : ProjectId} (hp : p ∈ s.graph.ids) {i : Impact}
    (hjudges : Judges sv.backend s overrides analyzed p i) {before after : List Diagnostic}
    (hbefore : uncachedListing s.context sv.backend p s.analyzers analyzed = .ok before)
    (hafter : uncachedListing (s.context.override overrides) sv.backend p s.analyzers analyzed =
      .ok after) : i = ⟨p, .compute before after, after.any Diagnostic.isError, none⟩ := by
  cases hjudges with
  | @mk found built hfound hbuilt =>
      rcases hbuilt.faultless ⟨hcompiles, h.complete⟩ hp with ⟨a, rfl, ha⟩
      have hcollect := uncachedListing_of_ok ha s.analyzers analyzed
      rw [hafter] at hcollect
      rw [hbefore] at hfound
      cases found with
      | error error => cases hfound.eq_of_ok
      | ok held =>
          cases hfound.eq_of_ok
          simp only [Except.bind, hcollect.eq_of_ok, impactOf]

theorem Judges.compares (h : Hosts sv streams id e s) (hfaultless : sv.backend.Faultless)
    {overrides : Overrides} {analyzed : Bool} {p : ProjectId} (hp : p ∈ s.graph.ids)
    {i : Impact} (hjudges : Judges sv.backend s overrides analyzed p i) :
    Compares sv.backend s overrides analyzed p i := by
  rcases uncachedListing_isOk hfaultless h.complete hp s.analyzers analyzed with ⟨before, hbefore⟩
  rcases uncachedListing_isOk hfaultless (h.complete.override overrides) hp s.analyzers
    analyzed with ⟨after, hafter⟩
  exact ⟨before, after, hbefore, hafter,
    hjudges.eq_of_listed h hfaultless.compiles hp hbefore hafter⟩

theorem Ready.meets_impact (h : Ready sv streams id e s) (p : ProjectId)
    (overrides : Overrides) (analyzed : Bool) :
    Plan.Meets sv.backend streams (Plan.Crashes sv.backend s.context overrides p)
      (Judges sv.backend s overrides analyzed p)
      (impactPlan sv.backend s.context overrides s.analyzers analyzed p) := by
  apply Plan.ensures_bind
  refine (Plan.ensures_diagnostics h.free h.named analyzed (h.covered p)).imp ?_
  intro before hbefore
  apply Plan.ensures_bind
  refine (Plan.ensures_speculatesDiagnostics h.covered (fun hcrashes => hcrashes) s.analyzers
    analyzed).imp ?_
  rintro after ⟨built, hbuilt, rfl⟩
  exact .mk hbefore hbuilt

/-- All callers have returned, or one has panicked. -/
theorem returned_or_panicked {α β : Type} {panics : β → Prop} {R : β → α → Prop} {xs : List β}
    {exits : List (Schedule.Exit α)}
    (h : List.Forall₂ (fun x exit => Schedule.Exit.Meets (panics x) (R x) exit) xs exits) :
    (∃ as, exits = as.map Schedule.Exit.returned ∧ List.Forall₂ R xs as) ∨
      (∃ x ∈ xs, panics x) ∧ .panicked ∈ exits ∧ .blocked ∉ exits := by
  induction h with
  | nil => exact .inl ⟨[], rfl, .nil⟩
  | @cons x exit xs exits hx _ ih =>
      cases exit with
      | blocked => exact hx.elim
      | panicked =>
          refine .inr ⟨⟨x, List.mem_cons_self, hx⟩, List.mem_cons_self, fun hmem => ?_⟩
          rcases List.mem_cons.mp hmem with hmem | hmem
          · cases hmem
          · rcases ih with ⟨as, rfl, _⟩ | ⟨_, _, hblocked⟩
            · simp at hmem
            · exact hblocked hmem
      | returned a =>
          rcases ih with ⟨as, rfl, has⟩ | ⟨⟨y, hy, hpanics⟩, hpanicked, hblocked⟩
          · exact .inl ⟨a :: as, rfl, .cons hx has⟩
          · refine .inr ⟨⟨y, List.mem_cons_of_mem _ hy, hpanics⟩,
              List.mem_cons_of_mem _ hpanicked, fun hmem => ?_⟩
            rcases List.mem_cons.mp hmem with hmem | hmem
            · cases hmem
            · exact hblocked hmem

theorem exists_of_forall₂ {α β : Type} {R : α → β → Prop} {xs : List α} {ys : List β}
    (h : List.Forall₂ R xs ys) {x : α} (hx : x ∈ xs) : ∃ y ∈ ys, R x y := by
  induction h with
  | nil => cases hx
  | @cons x' y xs ys hfirst _ ih =>
      rcases List.mem_cons.mp hx with rfl | hx
      · exact ⟨y, List.mem_cons_self, hfirst⟩
      · rcases ih hx with ⟨y', hy', hrel⟩
        exact ⟨y', List.mem_cons_of_mem _ hy', hrel⟩

theorem mem_affected {g : Graph} {edited : List ProjectId} {p : ProjectId} :
    p ∈ affected g edited ↔ p ∈ g.ids ∧ ∃ q ∈ edited, p ∈ g.withDependents q := by
  simp [affected, Graph.mem_topologicalOrder]

/-- Impacts are worked out for all listed projects, unless the backend panics while one
of them is rebuilt. -/
theorem Ready.run_impacts (h : Ready sv streams id e s) (edited : List ProjectId) :
    ∃ schedule, schedule.Good sv.backend streams ∧
      ((∃ found, (impacts sv s edited).Returns e found { e with schedule := schedule } ∧
          List.Forall₂ (Judges sv.backend s s.overrides e.config.edits.includeAnalyzers)
            (affected s.graph edited) found) ∨
        (∃ p ∈ affected s.graph edited, Plan.Crashes sv.backend s.context s.overrides p) ∧
          (impacts sv s edited).run e = (.error .panicked, { e with schedule := schedule })) := by
  have hplans : List.Forall₂
      (fun p plan => Plan.Meets sv.backend streams
        (Plan.Crashes sv.backend s.context s.overrides p)
        (Judges sv.backend s s.overrides e.config.edits.includeAnalyzers p) plan)
      (affected s.graph edited)
      ((affected s.graph edited).map (impactPlan sv.backend s.context s.overrides s.analyzers
        e.config.edits.includeAnalyzers)) := by
    rw [List.forall₂_map_right_iff, List.forall₂_same]
    exact fun p _ => h.meets_impact p _ _
  rcases Schedule.driveAll_meets h.free (turns s.graph) hplans h.schedule with
    ⟨hexits, hfollows⟩
  refine ⟨_, hfollows.good, ?_⟩
  have hrun : (impacts sv s edited).run e = (Operation.performAll sv (turns s.graph)
      ((affected s.graph edited).map (impactPlan sv.backend s.context s.overrides s.analyzers
        e.config.edits.includeAnalyzers))).run e := by
    unfold impacts
    rw [Operation.run_bind]
    rfl
  unfold Operation.Returns
  rw [hrun]
  rcases returned_or_panicked hexits with ⟨found, hfound, hjudges⟩ |
      ⟨hcrashes, hpanicked, hblocked⟩
  · exact .inl ⟨found, Operation.returns_performAll (Prod.ext hfound rfl), hjudges⟩
  · exact .inr ⟨hcrashes, Operation.run_performAll_panicked rfl hpanicked hblocked⟩

/-!
# Batches
-/

/-- The results of a batch, and the session that it leaves. -/
def stagedIn (e : Engine σ π) (s : Session) (edits : List DocumentEdit) :
    List EditResult × Session :=
  stageAll s.workspace edits { s with lastAccess := e.clock }

theorem Hosts.staged_stagedIn (h : Hosts sv streams id e s) (edits : List DocumentEdit) :
    Staged s (e.stagedIn s edits).2 :=
  (staged_use s e.clock).trans (staged_stageAll edits rfl h.use.formed).left

theorem Hosts.graph_stagedIn (h : Hosts sv streams id e s) (edits : List DocumentEdit) :
    (e.stagedIn s edits).2.graph = s.graph :=
  congrArg Context.graph (h.staged_stagedIn edits).context

/-- The projects that a batch lists. -/
def listedBy (e : Engine σ π) (s : Session) (edits : List DocumentEdit) : List ProjectId :=
  affected s.graph ((e.stagedIn s edits).1.filterMap EditResult.project)

/-- A batch is staged, and then its impacts are worked out. -/
theorem run_applyEdits (hsession : e.sessions.get? id = some s) {edits : List DocumentEdit}
    (hedits : edits ≠ []) :
    (applyEdits sv id edits).run e =
      (impacts sv (e.stagedIn s edits).2
          ((e.stagedIn s edits).1.filterMap EditResult.project) >>= fun found =>
        (pure ⟨(e.stagedIn s edits).1, found⟩ : Operation σ π EditOutcome)).run
        ((e.setSession { s with lastAccess := e.clock }).setSession (e.stagedIn s edits).2) := by
  have huse : (Operation.use id).Returns e { s with lastAccess := e.clock }
      (e.setSession { s with lastAccess := e.clock }) :=
    Operation.returns_use_iff.mpr ⟨s, hsession, rfl, rfl⟩
  have hset : (Operation.setSession (e.stagedIn s edits).2 : Operation σ π Unit).Returns
      (e.setSession { s with lastAccess := e.clock }) ⟨⟩
      ((e.setSession { s with lastAccess := e.clock }).setSession (e.stagedIn s edits).2) :=
    Operation.returns_setSession_iff.mpr rfl
  have hnonempty : ¬ edits.isEmpty := by simpa using hedits
  rw [applyEdits, if_neg hnonempty]
  exact (huse.run_bind _).trans (hset.run_bind _)

theorem Ready.run_applyEdits (h : Ready sv streams id e s) {edits : List DocumentEdit}
    (hedits : edits ≠ []) :
    ∃ e', Ready sv streams id e' (e.stagedIn s edits).2 ∧ e'.config = e.config ∧
      ((∃ found, (applyEdits sv id edits).Returns e ⟨(e.stagedIn s edits).1, found⟩ e' ∧
          List.Forall₂
            (Judges sv.backend (e.stagedIn s edits).2 (e.stagedIn s edits).2.overrides
              e.config.edits.includeAnalyzers)
            (e.listedBy s edits) found) ∨
        (∃ p ∈ e.listedBy s edits, Plan.Crashes sv.backend s.context
            (e.stagedIn s edits).2.overrides p) ∧
          (applyEdits sv id edits).run e = (.error .panicked, e')) := by
  have hused := h.use
  rcases staged_stageAll edits (s := { s with lastAccess := e.clock }) rfl hused.formed with
    ⟨hstaged, hformed⟩
  have hready : Ready sv streams id _ (e.stagedIn s edits).2 :=
    hused.setSession hformed hstaged.id hstaged.analyzers (hstaged.context ▸ hused.covered)
  rcases hready.run_impacts ((e.stagedIn s edits).1.filterMap EditResult.project) with
    ⟨schedule, hgood, hruns⟩
  rw [h.graph_stagedIn, (h.staged_stagedIn edits).context] at hruns
  refine ⟨_, hready.withSchedule hgood, rfl, ?_⟩
  unfold Operation.Returns
  rw [Engine.run_applyEdits h.session hedits]
  rcases hruns with ⟨found, hreturns, hjudges⟩ | ⟨hcrashes, hpanicked⟩
  · exact .inl ⟨found, hreturns.run_bind _, hjudges⟩
  · refine .inr ⟨hcrashes, ?_⟩
    rw [Operation.run_bind, hpanicked]

theorem Ready.returns_applyEdits (h : Ready sv streams id e s)
    (hfaultless : sv.backend.Faultless) {edits : List DocumentEdit} (hedits : edits ≠ []) :
    ∃ found e', (applyEdits sv id edits).Returns e ⟨(e.stagedIn s edits).1, found⟩ e' ∧
      Ready sv streams id e' (e.stagedIn s edits).2 ∧ e'.config = e.config ∧
      List.Forall₂ (Compares sv.backend (e.stagedIn s edits).2 (e.stagedIn s edits).2.overrides
          e.config.edits.includeAnalyzers)
        (e.listedBy s edits) found := by
  rcases h.run_applyEdits hedits with ⟨e', hready, hconfig, hruns⟩
  rcases hruns with ⟨found, hreturns, hjudges⟩ | ⟨⟨p, _, hcrashes⟩, _⟩
  · refine ⟨found, e', hreturns, hready, hconfig, ?_⟩
    have hids : ∀ p ∈ e.listedBy s edits, p ∈ (e.stagedIn s edits).2.graph.ids := by
      rw [h.graph_stagedIn]
      exact fun p hp => (mem_affected.mp hp).left
    exact ((List.forall₂_and_left _ _).mpr ⟨hids, hjudges⟩).imp fun p i ⟨hp, hi⟩ =>
      hi.compares hready.toHosts hfaultless hp
  · exact (hcrashes.exists_fault hfaultless.compiles).elim

/-- The engine that batches leave one after the other. -/
def applyAll (sv : Services σ π) (id : SessionId) (e : Engine σ π)
    (batches : List (List DocumentEdit)) : Engine σ π :=
  batches.foldl (fun e edits => ((applyEdits sv id edits).run e).2) e

theorem Ready.applyAll (h : Ready sv streams id e s) (hfaultless : sv.backend.Faultless)
    (batches : List (List DocumentEdit)) :
    ∃ s', Ready sv streams id (Engine.applyAll sv id e batches) s' ∧ Staged s s' := by
  induction batches generalizing e s with
  | nil => exact ⟨s, h, rfl, rfl, rfl⟩
  | cons edits rest ih =>
      by_cases hedits : edits = []
      · subst hedits
        exact ih h
      · rcases h.returns_applyEdits hfaultless hedits with ⟨_, e', hreturns, hready, _⟩
        rcases staged_stageAll edits (s := { s with lastAccess := e.clock }) rfl h.use.formed with
          ⟨hstaged, _⟩
        rcases ih hready with ⟨s', hready', hstaged'⟩
        refine ⟨s', ?_, ((staged_use s e.clock).trans hstaged).trans hstaged'⟩
        unfold Engine.applyAll
        rw [List.foldl_cons, hreturns]
        exact hready'

end Engine
end Ripple
