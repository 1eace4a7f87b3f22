import Ripple.Proofs.Engine.Commit
import Ripple.Proofs.Engine.Demands

/-!
# What demands come to

Where compiling is total, what a demand comes to is a function of the session and the
store: builds come out as without a cache, and the rest of the engine has no part in
the answer. Nor have the id of the session, its phase and the times that it keeps.
-/

namespace Ripple

open Cache

variable {σ π : Type}

/-!
# Builds that can end in one way only
-/

namespace Verdict

variable {α : Type}

/-- There are no two errors that the build may end in. -/
def Settled (v : Verdict α) : Prop :=
  ∀ es, v = .error es → ∃ e, es = [e]

/-- The answer, where there is only one. -/
def first : Verdict α → Except Error α
  | .ok a => .ok a
  | .error (e :: _) => .error e
  | .error [] => .error .cancelled

theorem Settled.eq_first {v : Verdict α} (h : v.Settled) {result : Except Error α}
    (hallows : v.Allows result) : result = v.first := by
  cases v with
  | ok a => exact hallows.eq_of_ok
  | error es =>
      rcases h es rfl with ⟨e, rfl⟩
      exact hallows.eq_of_error

end Verdict

namespace Context

/-- Every compile comes to an artifact, so a project fails only if it is not there. -/
theorem settled_uncached {b : Backend π} (hcompiles : ∀ u, ∃ a, b.compile u = .compiled a)
    {ctx : Context} (hcomplete : ctx.Complete) (p : ProjectId) : (ctx.uncached b p).Settled := by
  rcases exists_uncachedAll_iff.mpr fun c hc =>
      uncached_isOk hcomplete hcompiles (Graph.mem_ids_of_effective (a := p) hc) with
    ⟨references, hall⟩
  rw [uncached_eq, hall]
  cases ctx.workspace.project? p with
  | none =>
      intro es hes
      cases hes
      exact ⟨_, rfl⟩
  | some project =>
      rcases hcompiles (.ofProject project references) with ⟨a, ha⟩
      simp only [ha, verdictOf]
      intro es hes
      cases hes

theorem settled_uncachedListing {b : Backend π}
    (hcompiles : ∀ u, ∃ a, b.compile u = .compiled a) {ctx : Context}
    (hcomplete : ctx.Complete) (p : ProjectId) (set : AnalyzerSet) (analyzed : Bool) :
    (uncachedListing ctx b p set analyzed).Settled := by
  have hsettled := settled_uncached hcompiles hcomplete p
  intro es hes
  unfold uncachedListing at hes
  cases hp : ctx.uncached b p with
  | error errors =>
      simp only [hp] at hes
      cases hes
      exact hsettled es hp
  | ok a =>
      simp only [hp] at hes
      cases hcollect : Plan.collect b a set analyzed with
      | ok ds =>
          rw [hcollect] at hes
          cases hes
      | error e =>
          rw [hcollect] at hes
          cases hes
          exact ⟨e, rfl⟩

/-- The session that a build is for has no part in it. -/
theorem uncached_congr {b : Backend π} {ctx ctx' : Context}
    (hworkspace : ctx'.workspace = ctx.workspace) (hgraph : ctx'.graph = ctx.graph)
    (p : ProjectId) : ctx'.uncached b p = ctx.uncached b p :=
  fold_congr (P := fun _ => True) hgraph (fun _ _ => trivial)
    (fun _ _ => by rw [hworkspace]) _ trivial

end Context

/-!
# What a session lists
-/

namespace Session

/-- The diagnostics of a project. -/
def listing (b : Backend π) (s : Session) (analyzed : Bool) (p : ProjectId) :
    Except Error (List Diagnostic) :=
  (uncachedListing s.context b p s.analyzers analyzed).first

/-- The diagnostics that a project would have with the pending texts. -/
def preview (b : Backend π) (s : Session) (analyzed : Bool) (p : ProjectId) :
    Except Error (List Diagnostic) :=
  (uncachedListing (s.context.override s.overrides) b p s.analyzers analyzed).first

/-- What is listed, as if it came from a cache. -/
def held (b : Backend π) (s : Session) (analyzed : Bool) (p : ProjectId) :
    Except Error (Held (List Diagnostic)) :=
  (s.listing b analyzed p).map (Held.mk 0)

def impact (b : Backend π) (s : Session) (analyzed : Bool) (p : ProjectId) : Engine.Impact :=
  Engine.impactOf p (s.held b analyzed p) (s.preview b analyzed p)

def diagnosed (b : Backend π) (s : Session) (analyzed : Bool) :
    Option ProjectId → Except Error Engine.DiagnosticsReport
  | some p => (s.listing b analyzed p).map fun ds => ⟨[⟨p, ds, none⟩]⟩
  | none => .ok ⟨s.graph.topologicalOrder.map fun p => Engine.entryOf p (s.held b analyzed p)⟩

/-- What a batch of edits comes to, and the session that it leaves. -/
def edited (b : Backend π) (s : Session) (analyzed : Bool) (edits : List DocumentEdit) :
    Engine.EditOutcome × Session :=
  let (results, s) := Engine.stageAll s.workspace edits s
  (⟨results, (Engine.affected s.graph (results.filterMap Engine.EditResult.project)).map
    (s.impact b analyzed)⟩, s)

end Session

namespace Engine

/-- The refusal of the one edit is that of the operation. -/
def EditOutcome.alone (o : EditOutcome) : Except Error EditOutcome :=
  match o.edits.head?.bind EditResult.error with
  | some e => .error e
  | none => .ok o

/-!
# What is left in the end
-/

/-- What an operation comes to: its answer, the session if it is still there, and the
store. -/
structure Outcome (σ : Type) where
  answer : Except Error Answer
  session : Option Session
  store : σ

/-- What a commit comes to that is at some pending texts. -/
def committed (st : Store σ) : List PendingEdit → CommitReport → Session → σ →
    CommitReport × Session × σ
  | [], report, s, store => (report, s, store)
  | edit :: left, report, s, store =>
      match st.write store edit.path edit.text with
      | (.error e, store) =>
          committed st left
            { report with
              failed := report.failed ++ [⟨edit.path, .writeFailed edit.path e.message⟩] }
            s store
      | (.ok (), store) =>
          committed st left
            { report with
              written := report.written ++ [edit.path]
              invalidated := addNew report.invalidated (Tables.affectedBy s.graph edit.project) }
            (s.settle edit) store

/-- What a document comes to that is read again. -/
def reloaded (st : Store σ) (path : Path) (s : Session) (store : σ) :
    Except Error (List ProjectId) × Session :=
  match s.workspace.document? (s.workspace.resolve path) with
  | none => (.error (.documentNotFound (s.workspace.resolve path)), s)
  | some (p, d) =>
      match st.read store (s.workspace.resolve path) with
      | .error e => (.error (.readFailed (s.workspace.resolve path) e.message), s)
      | .ok content =>
          if content = d.content then (.ok [], s)
          else
            (.ok (Tables.affectedBy s.graph p.id),
              ((s.updateDocument (s.workspace.resolve path) content).map Prod.snd).getD s)

/-- What a demand comes to without a cache. -/
def Demand.outcome (sv : Services σ π) (analyzed : Bool) (s : Session) (store : σ) :
    Demand → Outcome σ
  | .applyEdit edit =>
      let (o, s) := s.edited sv.backend analyzed [edit]
      ⟨o.alone.map .edited, some s, store⟩
  | .applyEdits edits =>
      if edits.isEmpty then ⟨.error .emptyBatch, some s, store⟩
      else
        let (o, s) := s.edited sv.backend analyzed edits
        ⟨.ok (.edited o), some s, store⟩
  | .commit =>
      let (report, s, store) := committed sv.store s.pendingEdits .empty s store
      ⟨.ok (.committed report), some s, store⟩
  | .rollback => ⟨.ok (.discarded s.pending.size), some s.discardPending, store⟩
  | .pendingEdits => ⟨.ok (.pending s.pendingEdits), some s, store⟩
  | .diagnostics project? analyze? =>
      ⟨(s.diagnosed sv.backend (analyze?.getD analyzed) project?).map .diagnosed, some s, store⟩
  | .invalidateProject p =>
      if s.graph.contains p then ⟨.ok (.invalidated (Tables.affectedBy s.graph p)), some s, store⟩
      else ⟨.error (.projectNotFound p), some s, store⟩
  | .graphSummary => ⟨.ok (.summarized (.of s.workspace s.graph)), some s, store⟩
  | .refresh =>
      match sv.store.load store s.source s.root with
      | (.ok w, store) => ⟨.ok .done, some (s.discardPending.replaceWorkspace w), store⟩
      | (.error cause, store) => ⟨.error (.loadFailed s.root cause), some s, store⟩
  | .reload path =>
      let (result, s) := reloaded sv.store path s store
      ⟨result.map .invalidated, some s, store⟩
  | .pause | .unpause | .status => ⟨.ok .done, some s, store⟩
  | .finish => ⟨.ok .done, none, store⟩

end Engine

/-!
# Sessions that answer alike
-/

namespace Session

/-- Two sessions differ in what is pending in them, and in what their answers do not
depend on. -/
structure Akin (s s' : Session) : Prop where
  root : s'.root = s.root
  source : s'.source = s.source
  analyzers : s'.analyzers = s.analyzers
  workspace : s'.workspace = s.workspace
  graph : s'.graph = s.graph

/-- Two sessions agree in all that their answers depend on. -/
structure Like (s s' : Session) : Prop extends Akin s s' where
  pending : s'.pending = s.pending

variable {s s' s'' : Session}

theorem Akin.refl (s : Session) : s.Akin s := ⟨rfl, rfl, rfl, rfl, rfl⟩

theorem Akin.symm (h : s.Akin s') : s'.Akin s :=
  ⟨h.root.symm, h.source.symm, h.analyzers.symm, h.workspace.symm, h.graph.symm⟩

theorem Akin.trans (h : s.Akin s') (h' : s'.Akin s'') : s.Akin s'' :=
  ⟨h'.root.trans h.root, h'.source.trans h.source, h'.analyzers.trans h.analyzers,
    h'.workspace.trans h.workspace, h'.graph.trans h.graph⟩

theorem Like.refl (s : Session) : s.Like s := ⟨.refl s, rfl⟩

theorem Like.symm (h : s.Like s') : s'.Like s := ⟨h.toAkin.symm, h.pending.symm⟩

theorem Like.trans (h : s.Like s') (h' : s'.Like s'') : s.Like s'' :=
  ⟨h.toAkin.trans h'.toAkin, h'.pending.trans h.pending⟩

/-- The times and the phase of a session have no part in its answers. -/
theorem like_use (s : Session) (now : Nat) : s.Like { s with lastAccess := now } :=
  ⟨⟨rfl, rfl, rfl, rfl, rfl⟩, rfl⟩

theorem Akin.listing (h : s.Akin s') (b : Backend π) (analyzed : Bool) (p : ProjectId) :
    s'.listing b analyzed p = s.listing b analyzed p := by
  have hcontext : s'.context.uncached b p = s.context.uncached b p :=
    Context.uncached_congr h.workspace h.graph p
  simp only [Session.listing, uncachedListing, hcontext, h.analyzers]

theorem Akin.held (h : s.Akin s') (b : Backend π) (analyzed : Bool) (p : ProjectId) :
    s'.held b analyzed p = s.held b analyzed p :=
  congrArg (Except.map (Held.mk 0)) (h.listing b analyzed p)

/-- What is pending has no part in diagnostics. -/
theorem Akin.diagnosed (h : s.Akin s') (b : Backend π) (analyzed : Bool)
    (project? : Option ProjectId) :
    s'.diagnosed b analyzed project? = s.diagnosed b analyzed project? := by
  cases project? with
  | some p => exact congrArg (Except.map _) (h.listing b analyzed p)
  | none => simp only [Session.diagnosed, h.graph, h.held]

theorem Like.overrides (h : s.Like s') : s'.overrides = s.overrides :=
  congrArg (fun pending : PathMap PendingEdit => pending.map PendingEdit.text) h.pending

theorem Like.preview (h : s.Like s') (b : Backend π) (analyzed : Bool) (p : ProjectId) :
    s'.preview b analyzed p = s.preview b analyzed p := by
  have hworkspace : (s'.context.override s'.overrides).workspace =
      (s.context.override s.overrides).workspace := by
    change s'.workspace.override s'.overrides = s.workspace.override s.overrides
    rw [h.workspace, h.overrides]
  have hcontext := Context.uncached_congr (b := b) hworkspace h.graph p
  simp only [Session.preview, uncachedListing, hcontext, h.analyzers]

theorem Like.impact (h : s.Like s') (b : Backend π) (analyzed : Bool) :
    s'.impact b analyzed = s.impact b analyzed := by
  funext p
  rw [Session.impact, Session.impact, h.held, h.preview]

theorem Like.stage (h : s.Like s') (edit : PendingEdit) : (s.stage edit).Like (s'.stage edit) :=
  ⟨⟨h.root, h.source, h.analyzers, h.workspace, h.graph⟩,
    congrArg (fun pending : PathMap PendingEdit => pending.insert edit.path edit) h.pending⟩

theorem Like.pendingText? (h : s.Like s') (path : Path) :
    s'.pendingText? path = s.pendingText? path :=
  congrArg (fun pending : PathMap PendingEdit => (pending.get? path).map PendingEdit.text)
    h.pending

theorem Like.pendingEdits (h : s.Like s') : s'.pendingEdits = s.pendingEdits :=
  congrArg PathMap.values h.pending

theorem Like.discardPending (h : s.Like s') : s.discardPending.Like s'.discardPending :=
  ⟨⟨h.root, h.source, h.analyzers, h.workspace, h.graph⟩, rfl⟩

theorem Like.replaceWorkspace (h : s.Like s') (w : Workspace) :
    (s.replaceWorkspace w).Like (s'.replaceWorkspace w) :=
  ⟨⟨h.root, h.source, h.analyzers, rfl, rfl⟩, h.pending⟩

theorem Like.update (h : s.Like s') (path : Path) (text : String) :
    (((s.updateDocument path text).map Prod.snd).getD s).Like
      (((s'.updateDocument path text).map Prod.snd).getD s') := by
  rw [updateDocument_getD, updateDocument_getD, h.workspace]
  exact ⟨⟨h.root, h.source, h.analyzers, rfl, h.graph⟩, h.pending⟩

theorem Like.clear (h : s.Like s') (path : Path) (text : String) :
    ((s.clearPendingIf path text).getD s).Like ((s'.clearPendingIf path text).getD s') := by
  simp only [clearPendingIf, h.pendingText?]
  by_cases htext : s.pendingText? path = some text
  · rw [if_pos htext, if_pos htext]
    exact ⟨⟨h.root, h.source, h.analyzers, h.workspace, h.graph⟩,
      congrArg (fun pending : PathMap PendingEdit => pending.erase path) h.pending⟩
  · rw [if_neg htext, if_neg htext]
    exact h

theorem Like.settle (h : s.Like s') (edit : PendingEdit) :
    (s.settle edit).Like (s'.settle edit) :=
  (h.clear edit.path edit.text).update edit.path edit.text

/-- An edit is refused by both, or staged in both. -/
theorem Like.stageEdit (h : s.Like s') (w : Workspace) (edit : DocumentEdit) :
    (∃ e, s.stageEdit w edit = .error e ∧ s'.stageEdit w edit = .error e) ∨
      ∃ p t t', s.stageEdit w edit = .ok (p, t) ∧ s'.stageEdit w edit = .ok (p, t') ∧
        t.Like t' := by
  unfold Session.stageEdit
  cases w.document? edit.file with
  | none => exact .inl ⟨_, rfl, rfl⟩
  | some found =>
      rcases found with ⟨p, d⟩
      simp only [h.pendingText?]
      cases Change.applyAll ((s.pendingText? d.path).getD d.content) edit.changes with
      | error refusal => exact .inl ⟨_, rfl, rfl⟩
      | ok text => exact .inr ⟨p.id, _, _, rfl, rfl, h.stage _⟩

end Session

/-!
# Alike sessions come to alike outcomes
-/

namespace Engine

open Session (Like)

variable {s s' : Session}

theorem stageAll_like (h : s.Like s') (w : Workspace) (edits : List DocumentEdit) :
    (stageAll w edits s').1 = (stageAll w edits s).1 ∧
      (stageAll w edits s).2.Like (stageAll w edits s').2 := by
  induction edits generalizing s s' with
  | nil => exact ⟨rfl, h⟩
  | cons edit rest ih =>
      unfold stageAll
      rcases h.stageEdit w edit with ⟨e, he, he'⟩ | ⟨p, t, t', ht, ht', hstaged⟩
      · rw [he, he']
        exact ⟨congrArg (⟨edit.file, none, some e⟩ :: ·) (ih h).left, (ih h).right⟩
      · rw [ht, ht']
        exact ⟨congrArg (⟨edit.file, some p, none⟩ :: ·) (ih hstaged).left, (ih hstaged).right⟩

theorem edited_like (h : s.Like s') (b : Backend π) (analyzed : Bool)
    (edits : List DocumentEdit) :
    (s'.edited b analyzed edits).1 = (s.edited b analyzed edits).1 ∧
      (s.edited b analyzed edits).2.Like (s'.edited b analyzed edits).2 := by
  rcases stageAll_like h s.workspace edits with ⟨hresults, hlike⟩
  simp only [Session.edited, h.workspace, hresults, hlike.graph, hlike.impact]
  exact ⟨trivial, hlike⟩

theorem committed_like (st : Store σ) (h : s.Like s') (edits : List PendingEdit)
    (report : CommitReport) (store : σ) :
    (committed st edits report s' store).1 = (committed st edits report s store).1 ∧
      (committed st edits report s store).2.1.Like (committed st edits report s' store).2.1 ∧
      (committed st edits report s' store).2.2 = (committed st edits report s store).2.2 := by
  induction edits generalizing s s' report store with
  | nil => exact ⟨rfl, h, rfl⟩
  | cons edit rest ih =>
      unfold committed
      rcases st.write store edit.path edit.text with ⟨_ | _, store'⟩
      · exact ih h _ _
      · simp only [h.graph]
        exact ih (h.settle edit) _ _

theorem reloaded_like (st : Store σ) (h : s.Like s') (path : Path) (store : σ) :
    (reloaded st path s' store).1 = (reloaded st path s store).1 ∧
      (reloaded st path s store).2.Like (reloaded st path s' store).2 := by
  unfold reloaded
  rw [h.workspace, h.graph]
  cases s.workspace.document? (s.workspace.resolve path) with
  | none => exact ⟨rfl, h⟩
  | some found =>
      cases st.read store (s.workspace.resolve path) with
      | error e => exact ⟨rfl, h⟩
      | ok content =>
          simp only
          split
          · exact ⟨rfl, h⟩
          · exact ⟨rfl, h.update _ _⟩

/-- Two outcomes are alike if they differ in the times and the phase of the session at
most. -/
structure Outcome.Like (o o' : Outcome σ) : Prop where
  answer : o'.answer = o.answer
  session : Option.Rel Session.Like o.session o'.session
  store : o'.store = o.store

theorem outcome_like (sv : Services σ π) (analyzed : Bool) (h : s.Like s') (store : σ)
    (d : Demand) : (d.outcome sv analyzed s store).Like (d.outcome sv analyzed s' store) := by
  cases d with
  | applyEdit edit =>
      rcases edited_like h sv.backend analyzed [edit] with ⟨hanswer, hlike⟩
      exact ⟨congrArg (fun o : EditOutcome => o.alone.map Answer.edited) hanswer, .some hlike, rfl⟩
  | applyEdits edits =>
      rcases edited_like h sv.backend analyzed edits with ⟨hanswer, hlike⟩
      simp only [Demand.outcome]
      split
      · exact ⟨rfl, .some h, rfl⟩
      · exact ⟨congrArg (fun o => Except.ok (Answer.edited o)) hanswer, .some hlike, rfl⟩
  | commit =>
      rcases committed_like sv.store h s.pendingEdits .empty store with ⟨hanswer, hlike, hstore⟩
      simp only [Demand.outcome, h.pendingEdits]
      exact ⟨congrArg (fun report => Except.ok (Answer.committed report)) hanswer, .some hlike, hstore⟩
  | rollback =>
      refine ⟨?_, .some h.discardPending, rfl⟩
      exact congrArg (fun pending : PathMap PendingEdit =>
        (.ok (.discarded pending.size) : Except Error Answer)) h.pending
  | pendingEdits =>
      exact ⟨congrArg (fun edits => Except.ok (Answer.pending edits)) h.pendingEdits, .some h, rfl⟩
  | diagnostics project? analyze? =>
      exact ⟨congrArg (Except.map Answer.diagnosed) (h.diagnosed _ _ _), .some h, rfl⟩
  | invalidateProject p =>
      simp only [Demand.outcome, h.graph]
      split
      · exact ⟨rfl, .some h, rfl⟩
      · exact ⟨rfl, .some h, rfl⟩
  | graphSummary =>
      simp only [Demand.outcome, h.graph, h.workspace]
      exact ⟨rfl, .some h, rfl⟩
  | refresh =>
      simp only [Demand.outcome, h.source, h.root]
      rcases sv.store.load store s.source s.root with ⟨cause | w, store'⟩
      · exact ⟨rfl, .some h, rfl⟩
      · exact ⟨rfl, .some (h.discardPending.replaceWorkspace w), rfl⟩
  | reload path =>
      rcases reloaded_like sv.store h path store with ⟨hanswer, hlike⟩
      exact ⟨congrArg (Except.map Answer.invalidated) hanswer, .some hlike, rfl⟩
  | pause => exact ⟨rfl, .some h, rfl⟩
  | unpause => exact ⟨rfl, .some h, rfl⟩
  | status => exact ⟨rfl, .some h, rfl⟩
  | finish => exact ⟨rfl, .none, rfl⟩

/-!
# What outcomes leave of a session
-/

theorem akin_stageAll (w : Workspace) (edits : List DocumentEdit) (s : Session) :
    s.Akin (stageAll w edits s).2 := by
  induction edits generalizing s with
  | nil => exact .refl s
  | cons edit rest ih =>
      unfold stageAll
      cases hedit : s.stageEdit w edit with
      | error e => exact ih s
      | ok staged =>
          rcases staged with ⟨p, s'⟩
          rcases Session.stageEdit_eq_ok_iff.mp hedit with ⟨p, d, text, _, _, _, rfl⟩
          have hstage : s.Akin (s.stage ⟨p.id, d.path, text⟩) := ⟨rfl, rfl, rfl, rfl, rfl⟩
          exact hstage.trans (ih _)

theorem analyzers_committed (st : Store σ) (edits : List PendingEdit) (report : CommitReport)
    (s : Session) (store : σ) :
    (committed st edits report s store).2.1.analyzers = s.analyzers := by
  induction edits generalizing report s store with
  | nil => rfl
  | cons edit rest ih =>
      unfold committed
      rcases st.write store edit.path edit.text with ⟨_ | _, store'⟩
      · exact ih _ _ _
      · exact (ih _ _ _).trans (s.alike_settle edit).analyzers

theorem analyzers_reloaded (st : Store σ) (path : Path) (s : Session) (store : σ) :
    (reloaded st path s store).2.analyzers = s.analyzers := by
  unfold reloaded
  split
  · rfl
  · split
    · rfl
    · split
      · rfl
      · rw [Session.updateDocument_getD]

/-- The analyzers are chosen once and for all. -/
theorem analyzers_outcome (sv : Services σ π) (analyzed : Bool) (store : σ) (d : Demand)
    (ht : (d.outcome sv analyzed s store).session = some s') : s'.analyzers = s.analyzers := by
  cases d with
  | applyEdit edit =>
      cases ht
      exact (akin_stageAll s.workspace [edit] s).analyzers
  | applyEdits edits =>
      simp only [Demand.outcome] at ht
      split at ht
      · cases ht
        rfl
      · cases ht
        exact (akin_stageAll s.workspace edits s).analyzers
  | commit =>
      cases ht
      exact analyzers_committed sv.store s.pendingEdits .empty s store
  | reload path =>
      cases ht
      exact analyzers_reloaded sv.store path s store
  | refresh =>
      simp only [Demand.outcome] at ht
      split at ht <;> cases ht <;> rfl
  | invalidateProject p =>
      simp only [Demand.outcome] at ht
      split at ht <;> cases ht <;> rfl
  | finish => cases ht
  | _ =>
      cases ht
      rfl

end Engine
end Ripple
