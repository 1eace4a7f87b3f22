import Ripple.Proofs.Engine.Layers
import Ripple.Proofs.Engine.Rollback

/-!
# Batches over batches

Two batches may be committed together, or the first one before the second is applied. What
the second batch comes to is the same, and so are the sessions and the files in the end, if
the files of any two documents are apart. A batch is staged before its impacts are worked
out, so this does not depend on what is in the cache, and on whether the backend panics.
-/

namespace Ripple

open Cache

variable {σ π α : Type}

namespace Operation

/-- The operation is not refused: if it halts then a call of the backend has not come back,
or has panicked. -/
def Admitted (result : Except Halt α) : Prop :=
  (∃ a, result = .ok a) ∨ result = .error .blocked ∨ result = .error .panicked

theorem admitted_ofExit (exit : Schedule.Exit α) (e : Engine σ π) :
    ∃ result, Admitted result ∧ (ofExit exit : Operation σ π α).run e = (result, e) := by
  cases exit with
  | returned a => exact ⟨.ok a, .inl ⟨a, rfl⟩, rfl⟩
  | blocked => exact ⟨.error .blocked, .inr (.inl rfl), rfl⟩
  | panicked => exact ⟨.error .panicked, .inr (.inr rfl), rfl⟩

theorem admitted_mapM_ofExit (exits : List (Schedule.Exit α)) (e : Engine σ π) :
    ∃ result, Admitted result ∧
      (exits.mapM ofExit : Operation σ π (List α)).run e = (result, e) := by
  induction exits with
  | nil => exact ⟨.ok [], .inl ⟨[], rfl⟩, rfl⟩
  | cons exit exits ih =>
      obtain ⟨first, hfirst, hrun⟩ := admitted_ofExit exit e
      obtain ⟨rest, hrest, hruns⟩ := ih
      rw [List.mapM_cons, run_bind, hrun]
      rcases hfirst with ⟨a, rfl⟩ | rfl | rfl
      · simp only
        rw [run_bind, hruns]
        rcases hrest with ⟨as, rfl⟩ | rfl | rfl
        · exact ⟨.ok (a :: as), .inl ⟨_, rfl⟩, rfl⟩
        · exact ⟨.error .blocked, .inr (.inl rfl), rfl⟩
        · exact ⟨.error .panicked, .inr (.inr rfl), rfl⟩
      · exact ⟨.error .blocked, .inr (.inl rfl), rfl⟩
      · exact ⟨.error .panicked, .inr (.inr rfl), rfl⟩

end Operation

namespace Engine

open Operation (Admitted)

variable {sv : Services σ π} {streams : Set (List UInt8)} {id : SessionId} {e e' : Engine σ π}
  {s : Session} {m : σ} {edits edits' : List DocumentEdit}

/-!
# What a batch and a commit leave
-/

/-- The engine has a store, and a session that is like the given one. -/
structure Presents (id : SessionId) (e : Engine σ π) (s : Session) (m : σ) : Prop where
  session : ∃ t, e.sessions.get? id = some t ∧ t.id = id ∧ s.Like t
  store : e.store = m

theorem presents_setSession {t : Session} (hstore : e.store = m) (hid : t.id = id)
    (hlike : s.Like t) : Presents id (e.setSession t) s m where
  session := by
    refine ⟨t, ?_, hid, hlike⟩
    change (e.sessions.insert t.id t).get? id = some t
    rw [Table.get?_insert, if_pos hid.symm]
  store := hstore

theorem admitted_impacts (sv : Services σ π) (s : Session) (edited : List ProjectId)
    (e : Engine σ π) :
    ∃ result schedule, Admitted result ∧
      (impacts sv s edited).run e = (result, { e with schedule := schedule }) := by
  have hrun : (impacts sv s edited).run e = (Operation.performAll sv (turns s.graph)
      ((affected s.graph edited).map (impactPlan sv.backend s.context s.overrides s.analyzers
        e.config.edits.includeAnalyzers))).run e := by
    unfold impacts
    rw [Operation.run_bind]
    rfl
  rw [hrun, Operation.run_performAll]
  obtain ⟨result, hadmitted, hexits⟩ := Operation.admitted_mapM_ofExit _ _
  exact ⟨result, _, hadmitted, hexits⟩

/-- The answer to a batch tells how its edits have come out. -/
def Tells (results : List EditResult) (answer : Except Halt Answer) : Prop :=
  Admitted answer ∧ ∀ a, answer = .ok a → ∃ found, a = .edited ⟨results, found⟩

theorem tells_map {result : Except Halt (List Impact)} (h : Admitted result)
    (results : List EditResult) :
    Tells results (result.map fun found => .edited ⟨results, found⟩) := by
  rcases h with ⟨found, rfl⟩ | rfl | rfl
  · refine ⟨.inl ⟨_, rfl⟩, fun a ha => ?_⟩
    cases ha
    exact ⟨found, rfl⟩
  · exact ⟨.inr (.inl rfl), nofun⟩
  · exact ⟨.inr (.inr rfl), nofun⟩

/-- A batch is staged, whatever comes of its impacts. -/
theorem run_batch (sv : Services σ π) (hsession : e.sessions.get? id = some s)
    (hedits : edits ≠ []) :
    ∃ result schedule, Admitted result ∧
      (Engine.applyEdits sv id edits).run e =
        (result.map fun found => ⟨(e.stagedIn s edits).1, found⟩,
          { (e.setSession { s with lastAccess := e.clock }).setSession
            (e.stagedIn s edits).2 with schedule := schedule }) := by
  obtain ⟨result, schedule, hadmitted, himpacts⟩ := admitted_impacts sv
    (e.stagedIn s edits).2 ((e.stagedIn s edits).1.filterMap EditResult.project)
    ((e.setSession { s with lastAccess := e.clock }).setSession (e.stagedIn s edits).2)
  refine ⟨result, schedule, hadmitted, ?_⟩
  rw [run_applyEdits hsession hedits, Operation.run_bind, himpacts]
  cases result <;> rfl

theorem Presents.applyEdits (sv : Services σ π) (h : Presents id e s m) (hedits : edits ≠ []) :
    ∃ answer e', ((Demand.applyEdits edits).operation sv id).run e = (answer, e') ∧
      Tells (stageAll s.workspace edits s).1 answer ∧ Presents id e' (s.staged edits) m := by
  obtain ⟨t, hsession, hid, hlike⟩ := h.session
  have hused : s.Like { t with lastAccess := e.clock } := hlike.trans (t.like_use e.clock)
  obtain ⟨hresults, hstaged⟩ := stageAll_like hused s.workspace edits
  have hbatch : stageAll s.workspace edits { t with lastAccess := e.clock } =
      e.stagedIn t edits := by
    rw [stagedIn, hlike.workspace]
  rw [hbatch] at hresults hstaged
  have hkeyed : (e.stagedIn t edits).2.id = id := (Session.id_stageAll ..).trans hid
  obtain ⟨result, schedule, hadmitted, hrun⟩ := run_batch sv hsession hedits
  generalize hset : (e.setSession { t with lastAccess := e.clock }).setSession
    (e.stagedIn t edits).2 = e₁ at hrun
  have hpresents : Presents id e₁ (s.staged edits) m :=
    hset ▸ presents_setSession h.store hkeyed hstaged
  refine ⟨_, { e₁ with schedule := schedule }, ?_, tells_map hadmitted _,
    hpresents.session, hpresents.store⟩
  change (Engine.applyEdits sv id edits >>= _).run e = _
  rw [Operation.run_bind, hrun, hresults]
  cases result <;> rfl

section

variable {files : Set Path} (hstore : sv.store.Provided)
  (hwritable : ∀ p ∈ files, ∀ text, (sv.store.write m p text).1 = .ok ())
include hstore hwritable

/-- Texts are written and folded in one after the other. -/
theorem Presents.returns_commitEdits {texts : List PendingEdit} (h : Presents id e s m)
    (hfiles : ∀ x ∈ texts, x.path ∈ files) (report : CommitReport) :
    ∃ report' e', (texts.foldlM (commitEdit sv id) report).Returns e report' e' ∧
      report'.failed = report.failed ∧
      Presents id e' (texts.foldl Session.settle s) (sv.store.writeAll m texts) := by
  induction texts generalizing e s m report with
  | nil => exact ⟨report, e, Operation.returns_pure_iff.mpr ⟨rfl, rfl⟩, rfl, h⟩
  | cons x texts ih =>
      obtain ⟨hx, hfiles⟩ := List.forall_mem_cons.mp hfiles
      obtain ⟨⟨t, hsession, hid, hlike⟩, rfl⟩ := h
      have hfirst := returns_commitEdit hsession report x (hwritable _ hx x.text)
      have hwrote : Presents id (wrote sv id e t x) (s.settle x)
          (sv.store.write e.store x.path x.text).2 :=
        ⟨(presents_setSession (m := (sv.store.write e.store x.path x.text).2) rfl
          ((t.alike_settle x).id.trans hid) (hlike.settle x)).session, rfl⟩
      obtain ⟨report', e', hrest, hfailed, hpresents⟩ :=
        ih (hstore.writable_write hwritable hx x.text) hwrote hfiles { report with
          written := report.written ++ [x.path]
          invalidated := addNew report.invalidated
            (Tables.affectedBy (t.settle x).graph x.project) }
      refine ⟨report', e', ?_, hfailed, hpresents⟩
      rw [List.foldlM_cons]
      exact Operation.returns_bind_iff.mpr ⟨_, _, hfirst, hrest⟩

/-- A commit writes and folds in all pending texts, and nothing fails. -/
theorem Presents.commit (h : Presents id e s m) (hfiles : ∀ x ∈ s.pendingEdits, x.path ∈ files) :
    ∃ report e', (Demand.commit.operation sv id).run e = (.ok (.committed report), e') ∧
      report.failed = [] ∧ Presents id e' s.folded (sv.store.writeAll m s.pendingEdits) := by
  obtain ⟨t, hsession, hid, hlike⟩ := h.session
  have hused : Presents id (e.setSession { t with lastAccess := e.clock }) s m :=
    presents_setSession h.store hid (hlike.trans (t.like_use e.clock))
  obtain ⟨report, e₁, hedits, hfailed, hpresents⟩ :=
    hused.returns_commitEdits hstore hwritable hfiles .empty
  obtain ⟨u, hfound, hkeyed, hfolded⟩ := hpresents.session
  have hmarked : ∃ e', (if u.pending.size = 0 && !report.written.isEmpty then do
        Operation.setSession { u with phase := .committed }
        pure report
      else pure report : Operation σ π CommitReport).Returns e₁ report e' ∧
      Presents id e' s.folded (sv.store.writeAll m s.pendingEdits) := by
    split
    · refine ⟨e₁.setSession { u with phase := .committed }, ?_, ?_⟩
      · exact Operation.returns_bind_iff.mpr ⟨⟨⟩, _, Operation.returns_setSession_iff.mpr rfl,
          Operation.returns_pure_iff.mpr ⟨rfl, rfl⟩⟩
      · exact presents_setSession hpresents.store hkeyed
          (hfolded.trans ⟨⟨rfl, rfl, rfl, rfl, rfl⟩, rfl⟩)
    · exact ⟨e₁, Operation.returns_pure_iff.mpr ⟨rfl, rfl⟩, hpresents⟩
  obtain ⟨e', hlast, hpresents'⟩ := hmarked
  refine ⟨report, e', ?_, hfailed, hpresents'⟩
  have hcommit : (Engine.commit sv id).Returns e report e' := by
    unfold Engine.commit
    refine Operation.returns_bind_iff.mpr
      ⟨_, _, Operation.returns_use_iff.mpr ⟨t, hsession, rfl, rfl⟩, ?_⟩
    rw [← hlike.pendingEdits] at hedits
    refine Operation.returns_bind_iff.mpr ⟨report, e₁, hedits, ?_⟩
    exact Operation.returns_bind_iff.mpr
      ⟨u, e₁, Operation.returns_find_iff.mpr ⟨hfound, rfl⟩, hlast⟩
  exact hcommit.run_bind _

end

/-!
# Answers with edits

If the streams that are hashed do not collide and the backend does not panic, then batches
are answered.
-/

theorem Ready.answers_applyEdits (h : Ready sv streams id e s)
    (hcompiles : ∀ u, sv.backend.compile u ≠ .panicked) (hedits : edits ≠ []) :
    ∃ outcome e' s', ((Demand.applyEdits edits).operation sv id).run e =
        (.ok (.edited outcome), e') ∧ Ready sv streams id e' s' := by
  obtain ⟨e', hready, _, hruns⟩ := h.run_applyEdits hedits
  rcases hruns with ⟨found, hreturns, _⟩ | ⟨⟨_, _, hcrashes⟩, _⟩
  · exact ⟨_, e', _, hreturns.run_bind _, hready⟩
  · obtain ⟨_, _, p, references, _, _, hcompile⟩ := hcrashes.panics
    exact absurd hcompile (hcompiles _)

theorem Ready.ready_commit (h : Ready sv streams id e s)
    (hknown : Known sv streams id ((Demand.commit.operation sv id).run e).2) :
    ∃ s', Ready sv streams id ((Demand.commit.operation sv id).run e).2 s' := by
  obtain ⟨e', s', hreturns, hhosts, hlike, _⟩ := h.toHosts.ends_commit
  have hrun : ((Demand.commit.operation sv id).run e).2 = e' :=
    congrArg Prod.snd (hreturns.run_bind _)
  rw [hrun] at hknown ⊢
  have hanalyzers : s'.analyzers = s.analyzers :=
    hlike.analyzers.trans (analyzers_outcome sv false e.store .commit rfl)
  exact ⟨s', h.of_hosts hhosts hanalyzers hknown⟩

/-!
# Two batches
-/

/-- Two batches that are committed together. -/
def stacked (sv : Services σ π) (id : SessionId) (edits edits' : List DocumentEdit)
    (e : Engine σ π) : List (Except Halt Answer) × Engine σ π :=
  serve sv id [.applyEdits edits, .applyEdits edits', .commit] e

/-- Two batches of which the first one is committed before the second one is applied. -/
def stepped (sv : Services σ π) (id : SessionId) (edits edits' : List DocumentEdit)
    (e : Engine σ π) : List (Except Halt Answer) × Engine σ π :=
  serve sv id [.applyEdits edits, .commit, .applyEdits edits', .commit] e

/-- The answer to a commit of which nothing has failed. -/
def Wrote (answer : Except Halt Answer) : Prop :=
  ∃ report, answer = .ok (.committed report) ∧ report.failed = []

/-- Two batches come to the same, committed together or one after the other: the sessions
are alike with nothing pending, the same is read from all files, every commit writes all it
has to, and the edits of the second batch come out the same. That batch is answered if the
backend does not panic and streams that are hashed do not collide. -/
structure Converge (sv : Services σ π) (id : SessionId) (edits edits' : List DocumentEdit)
    (e : Engine σ π) (s : Session) : Prop where
  sessions : ∃ t t', (stacked sv id edits edits' e).2.sessions.get? id = some t ∧
    (stepped sv id edits edits' e).2.sessions.get? id = some t' ∧
    t'.workspace = t.workspace ∧ t'.graph = t.graph ∧
    t.pendingEdits = [] ∧ t'.pendingEdits = []
  files : ∀ path, sv.store.read (stepped sv id edits edits' e).2.store path =
    sv.store.read (stacked sv id edits edits' e).2.store path
  answers : ∃ first second commit first' commit' second' commit'' results,
    (stacked sv id edits edits' e).1 = [first, second, commit] ∧
    (stepped sv id edits edits' e).1 = [first', commit', second', commit''] ∧
    Wrote commit ∧ Wrote commit' ∧ Wrote commit'' ∧ Tells results second ∧ Tells results second'
  answered : ∀ streams, Begins sv streams id e s →
    (∀ u, sv.backend.compile u ≠ .panicked) →
    Known sv streams id (serve sv id [.applyEdits edits, .commit] e).2 →
    ∃ outcome outcome', (stacked sv id edits edits' e).1[1]? = some (.ok (.edited outcome)) ∧
      (stepped sv id edits edits' e).1[2]? = some (.ok (.edited outcome')) ∧
      outcome'.edits = outcome.edits

section

variable {files : Set Path} (h : Presents id e s m) (hstore : sv.store.Provided)
  (hwritable : ∀ p ∈ files, ∀ text, (sv.store.write m p text).1 = .ok ())
  (hedits : edits ≠ []) (hedits' : edits' ≠ [])
include h hstore hwritable hedits hedits'

theorem Presents.stacked
    (hfiles : ∀ x ∈ ((s.staged edits).staged edits').pendingEdits, x.path ∈ files) :
    ∃ first second commit, (stacked sv id edits edits' e).1 = [first, second, commit] ∧
      Tells (stageAll (s.staged edits).workspace edits' (s.staged edits)).1 second ∧
      Wrote commit ∧
      Presents id (stacked sv id edits edits' e).2 ((s.staged edits).staged edits').folded
        (sv.store.writeAll m ((s.staged edits).staged edits').pendingEdits) := by
  obtain ⟨first, e₁, hfirst, _, h₁⟩ := h.applyEdits sv hedits
  obtain ⟨second, e₂, hsecond, htells, h₂⟩ := h₁.applyEdits sv hedits'
  obtain ⟨report, e₃, hcommit, hfailed, h₃⟩ := h₂.commit hstore hwritable hfiles
  have hserve : Engine.stacked sv id edits edits' e =
      ([first, second, .ok (.committed report)], e₃) := by
    simp only [Engine.stacked, serve, hfirst, hsecond, hcommit]
  rw [hserve]
  exact ⟨first, second, _, rfl, htells, ⟨report, rfl, hfailed⟩, h₃⟩

theorem Presents.stepped (hfiles : ∀ x ∈ (s.staged edits).pendingEdits, x.path ∈ files)
    (hfiles' : ∀ x ∈ ((s.staged edits).folded.staged edits').pendingEdits, x.path ∈ files) :
    ∃ first commit second commit',
      (stepped sv id edits edits' e).1 = [first, commit, second, commit'] ∧
      Tells (stageAll (s.staged edits).folded.workspace edits' (s.staged edits).folded).1 second ∧
      Wrote commit ∧ Wrote commit' ∧
      Presents id (stepped sv id edits edits' e).2
        ((s.staged edits).folded.staged edits').folded
        (sv.store.writeAll m ((s.staged edits).pendingEdits ++
          ((s.staged edits).folded.staged edits').pendingEdits)) := by
  obtain ⟨first, e₁, hfirst, _, h₁⟩ := h.applyEdits sv hedits
  obtain ⟨report, e₂, hcommit, hfailed, h₂⟩ := h₁.commit hstore hwritable hfiles
  obtain ⟨second, e₃, hsecond, htells, h₃⟩ := h₂.applyEdits sv hedits'
  have hwritable' := hstore.writable_writeAll hfiles hwritable
  obtain ⟨report', e₄, hcommit', hfailed', h₄⟩ := h₃.commit hstore hwritable' hfiles'
  have hserve : Engine.stepped sv id edits edits' e =
      ([first, .ok (.committed report), second, .ok (.committed report')], e₄) := by
    simp only [Engine.stepped, serve, hfirst, hcommit, hsecond, hcommit']
  rw [hserve, Store.writeAll_append]
  exact ⟨first, _, second, _, rfl, htells, ⟨report, rfl, hfailed⟩, ⟨report', rfl, hfailed'⟩, h₄⟩

end

/-- Batches are answered. -/
theorem Begins.answers_twice (h : Begins sv streams id e s)
    (hcompiles : ∀ u, sv.backend.compile u ≠ .panicked)
    (hknown : Known sv streams id (serve sv id [.applyEdits edits, .commit] e).2)
    (hedits : edits ≠ []) (hedits' : edits' ≠ []) :
    (∃ outcome, (stacked sv id edits edits' e).1[1]? = some (.ok (.edited outcome))) ∧
      ∃ outcome, (stepped sv id edits edits' e).1[2]? = some (.ok (.edited outcome)) := by
  obtain ⟨_, e₁, s₁, hfirst, h₁⟩ := h.ready.answers_applyEdits hcompiles hedits
  simp only [stacked, stepped, serve, hfirst] at hknown ⊢
  obtain ⟨s₂, h₂⟩ := h₁.ready_commit hknown
  obtain ⟨outcome, _, _, hsecond, _⟩ := h₁.answers_applyEdits hcompiles hedits'
  obtain ⟨outcome', _, _, hsecond', _⟩ := h₂.answers_applyEdits hcompiles hedits'
  rw [hsecond, hsecond']
  exact ⟨⟨outcome, rfl⟩, ⟨outcome', rfl⟩⟩

theorem Tells.edited {results : List EditResult} {outcome : EditOutcome}
    (h : Tells results (.ok (.edited outcome))) : outcome.edits = results := by
  obtain ⟨found, heq⟩ := h.right _ rfl
  cases heq
  rfl

/-- The files of the documents of a session. -/
def filesOf (s : Session) : Set Path :=
  { p | ∃ d ∈ s.workspace.documents, d.path = p }

/-- A batch comes to the same on top of texts that are pending and that have been committed, if
all files can be written and no two of them are seen at each other's paths. -/
theorem stacked_as_stepped (hstore : sv.store.Provided) (hsession : e.sessions.get? id = some s)
    (hid : s.id = id) (hreachable : s.Reachable)
    (habsolute : ∀ d ∈ s.workspace.documents, d.path.isAbsolute)
    (hserves : sv.store.Serves e.store (filesOf s)) (hapart : sv.store.Apart e.store (filesOf s))
    (hedits : edits ≠ []) (hedits' : edits' ≠ []) : Converge sv id edits edits' e s := by
  have h : Presents id e s e.store := ⟨⟨s, hsession, hid, .refl s⟩, rfl⟩
  -- Texts are kept under the paths of documents, spelled as the documents spell them.
  have hsubset : { p | s.workspace.Leads p } ⊆ filesOf s := fun p hp => hp.exists_document
  have hleads := hserves.mono hsubset
  have hreachable₁ := hreachable.staged edits
  have hreachable₂ := hreachable₁.staged edits'
  have habsolute₁ := Session.absolute_staged habsolute edits
  have habsolute₂ := Session.absolute_staged habsolute₁ edits'
  have hworkspace := s.workspace_staged edits
  have hfiles₁ := Session.leads_staged hreachable habsolute edits
  have hfiles₂ := Session.leads_staged hreachable₁ habsolute₁ edits'
  have hfiles₃ := Session.leads_folded_staged hreachable₁ habsolute₁ edits'
  rw [hworkspace] at hfiles₂ hfiles₃
  obtain ⟨first, second, commit, hstacked, htells, hwrote, h₁⟩ :=
    h.stacked hstore hleads.writable hedits hedits' hfiles₂
  obtain ⟨first', commit', second', commit'', hstepped, htells', hwrote', hwrote'', h₂⟩ :=
    h.stepped hstore hleads.writable hedits hedits' hfiles₁ hfiles₃
  rw [(Session.staged_folded hreachable₁ habsolute₁ edits').left] at htells'
  obtain ⟨t, ht, _, hlike⟩ := h₁.session
  obtain ⟨t', ht', _, hlike'⟩ := h₂.session
  have hlikes : t.Like t' :=
    (hlike.symm.trans (Session.like_folded_staged hreachable₁ habsolute₁ edits')).trans hlike'
  have hpending : t.pendingEdits = [] := by
    rw [hlike.pendingEdits, hreachable₂.formed.folded_eq habsolute₂]
    rfl
  refine ⟨⟨t, t', ht, ht', hlikes.workspace, hlikes.graph, hpending,
    hlikes.pendingEdits.trans hpending⟩, fun path => ?_, ?_, ?_⟩
  · rw [h₁.store, h₂.store]
    refine hstore.read_writeAll_congr hleads (hapart.mono hsubset) ?_ ?_ hfiles₂
      (Session.lastText_folded_staged hreachable₁ habsolute₁ edits') path
    · exact fun p hp q hq hsame => hp.eq_of_same hq habsolute hsame
    · intro x hx
      exact (List.mem_append.mp hx).elim (hfiles₁ x) (hfiles₃ x)
  · exact ⟨first, second, commit, first', commit', second', commit'', _, hstacked, hstepped,
      hwrote, hwrote', hwrote'', htells, htells'⟩
  · intro streams hbegins hcompiles hknown
    obtain ⟨⟨outcome, houtcome⟩, outcome', houtcome'⟩ :=
      hbegins.answers_twice hcompiles hknown hedits hedits'
    rw [hstacked] at houtcome ⊢
    rw [hstepped] at houtcome' ⊢
    cases houtcome
    cases houtcome'
    exact ⟨outcome, outcome', rfl, rfl, htells'.edited.trans htells.edited.symm⟩

/-- For one, two batches over the files of two projects, of which the second has an edit that
does not fit. -/
theorem stacked_as_stepped_linked :
    Converge remembering ⟨"s"⟩ [⟨⟨"/s"⟩, [⟨⟨0, 3⟩, "new"⟩]⟩]
      [⟨⟨"/s"⟩, [⟨⟨3, 0⟩, "er"⟩]⟩, ⟨⟨"/t"⟩, [⟨⟨0, 9⟩, ""⟩]⟩, ⟨⟨"/t"⟩, [⟨⟨0, 0⟩, "y"⟩]⟩]
      ((Engine.new .default (Memory.ofWorkspace linked) true).setSession linkedStart)
      linkedStart := by
  have habsolute : ∀ d ∈ linkedStart.workspace.documents, d.path.isAbsolute := by decide +kernel
  have hread : ∀ d ∈ linkedStart.workspace.documents,
      (Memory.ofWorkspace linked).read d.path = .ok d.content := by decide +kernel
  have hserves : Memory.store.Serves (Memory.ofWorkspace linked) (filesOf linkedStart) := by
    refine ⟨?_, fun p _ text => rfl⟩
    rintro p ⟨d, hd, rfl⟩ e he
    cases (hread d hd).symm.trans he
  exact stacked_as_stepped .memory rfl rfl ⟨_, _, _, _, _, _, .refl⟩ habsolute hserves
    (Memory.apart _ _) (by decide) (by decide)

/-!
# One file under two paths

Two projects have documents at paths that lead to one file. Together their texts are written
in the order of the paths, and one after the other in that of the batches.
-/

/-- Keeps files on a disk. -/
def filing : Services Disk (List Document) :=
  ⟨Disk.store, echo, fun _ => .ok (.ofNames [])⟩

def twofold : Workspace :=
  ⟨⟨"/ws"⟩, [⟨⟨"a"⟩, "a", [⟨⟨"/ws/./a.arb"⟩, "def alpha\n"⟩], [], [], .empty⟩,
    ⟨⟨"b"⟩, "b", [⟨⟨"/ws/sub/../a.arb"⟩, "def alpha\n"⟩], [], [], .empty⟩]⟩

def twofoldStart : Session :=
  .start ⟨"s"⟩ ⟨"/ws"⟩ .workspace (.ofNames []) twofold 0

/-- The disk with the file that both documents are in. -/
def twofoldDisk : Disk :=
  ((Disk.empty.put ["ws"] .directory).put ["ws", "sub"] .directory).put ["ws", "a.arb"]
    (.file "def alpha\n".toUTF8)

def twofoldEngine : Engine Disk (List Document) :=
  (Engine.new .default twofoldDisk true).setSession twofoldStart

/-- The edits to the document of the second project, and to that of the first. -/
def subEdits : List DocumentEdit :=
  [⟨⟨"/ws/sub/../a.arb"⟩, [⟨⟨0, 0⟩, "def one\n"⟩]⟩]

def plainEdits : List DocumentEdit :=
  [⟨⟨"/ws/a.arb"⟩, [⟨⟨0, 0⟩, "def two\n"⟩]⟩]

theorem twofoldDisk_lands : ∀ d ∈ twofold.documents,
    Disk.Lands twofoldDisk d.path ["ws", "a.arb.arbor-tmp"] ["ws", "a.arb"] := by
  have hnamed : ∀ d ∈ twofold.documents, ¬ d.path.text.toList.contains '\x00' := by decide
  have hneighbour : ∀ d ∈ twofold.documents,
      twofoldDisk.followAll d.path d.path.neighbourPieces = .ok ["ws", "a.arb.arbor-tmp"] := by
    decide
  have htarget : ∀ d ∈ twofold.documents,
      twofoldDisk.moveTarget d.path = .ok ["ws", "a.arb"] := by decide
  exact fun d hd => ⟨hnamed d hd, hneighbour d hd, by decide, htarget d hd⟩

theorem twofoldDisk_serves : Disk.store.Serves twofoldDisk (filesOf twofoldStart) := by
  constructor
  · rintro p ⟨d, hd, rfl⟩ e he
    have hread : twofoldDisk.read d.path = .ok "def alpha\n" :=
      Disk.read_of_file (twofoldDisk_lands d hd).locate rfl
    cases hread.symm.trans he
  · rintro p ⟨d, hd, rfl⟩ text
    exact (twofoldDisk_lands d hd).write_fst text

/-- Of two texts of the file the one that is written last stays. -/
theorem twofoldDisk_read {x y : PendingEdit} (hx : x.path ∈ filesOf twofoldStart)
    (hy : y.path ∈ filesOf twofoldStart) {d : Document} (hd : d ∈ twofold.documents) :
    (Disk.store.writeAll twofoldDisk [x, y]).read d.path = .ok y.text := by
  obtain ⟨dx, hdx, hx⟩ := hx
  obtain ⟨dy, hdy, hy⟩ := hy
  have hfirst := hx ▸ twofoldDisk_lands dx hdx
  have hsecond := hy ▸ twofoldDisk_lands dy hdy
  have haligned := hfirst.aligned x.text
  exact (haligned.lands hsecond).read_write (haligned.lands (twofoldDisk_lands d hd)) y.text

def plainText : PendingEdit :=
  ⟨⟨"a"⟩, ⟨"/ws/./a.arb"⟩, "def two\ndef alpha\n"⟩

def subText : PendingEdit :=
  ⟨⟨"b"⟩, ⟨"/ws/sub/../a.arb"⟩, "def one\ndef alpha\n"⟩

theorem plainText_mem : plainText.path ∈ filesOf twofoldStart :=
  ⟨_, .head _, rfl⟩

theorem subText_mem : subText.path ∈ filesOf twofoldStart :=
  ⟨_, .tail _ (.head _), rfl⟩

theorem presents_twofold : Presents ⟨"s"⟩ twofoldEngine twofoldStart twofoldDisk :=
  ⟨⟨twofoldStart, rfl, rfl, .refl _⟩, rfl⟩

theorem store_stacked_twofold :
    (stacked filing ⟨"s"⟩ subEdits plainEdits twofoldEngine).2.store =
      Disk.store.writeAll twofoldDisk [plainText, subText] := by
  have hstore : filing.store.Provided := .disk
  have hsub : subEdits ≠ [] := by decide
  have hplain : plainEdits ≠ [] := by decide
  have hpending : ((twofoldStart.staged subEdits).staged plainEdits).pendingEdits =
      [plainText, subText] := by decide +kernel
  obtain ⟨_, _, _, _, _, _, h⟩ := presents_twofold.stacked hstore twofoldDisk_serves.writable
    hsub hplain (hpending ▸ by simp [plainText_mem, subText_mem])
  rw [h.store, hpending]
  rfl

theorem store_stepped_twofold :
    (stepped filing ⟨"s"⟩ subEdits plainEdits twofoldEngine).2.store =
      Disk.store.writeAll twofoldDisk [subText, plainText] := by
  have hstore : filing.store.Provided := .disk
  have hsub : subEdits ≠ [] := by decide
  have hplain : plainEdits ≠ [] := by decide
  have hpending : (twofoldStart.staged subEdits).pendingEdits = [subText] := by decide +kernel
  have hpending' : ((twofoldStart.staged subEdits).folded.staged plainEdits).pendingEdits =
      [plainText] := by decide +kernel
  obtain ⟨_, _, _, _, _, _, _, _, h⟩ := presents_twofold.stepped hstore
    twofoldDisk_serves.writable hsub hplain (hpending ▸ by simp [subText_mem])
    (hpending' ▸ by simp [plainText_mem])
  rw [h.store, hpending, hpending']
  rfl

/-- Not so if two documents are in one file: it has the text of the second path in the end
when the batches are committed together, and that of the second batch otherwise. -/
theorem stacked_unlike_stepped :
    filing.store.Provided ∧ twofoldEngine.sessions.get? ⟨"s"⟩ = some twofoldStart ∧
    twofoldStart.id = ⟨"s"⟩ ∧ twofoldStart.Reachable ∧
    (∀ d ∈ twofoldStart.workspace.documents, d.path.isAbsolute) ∧
    filing.store.Serves twofoldEngine.store (filesOf twofoldStart) ∧
    subEdits ≠ [] ∧ plainEdits ≠ [] ∧
    ∃ d ∈ twofoldStart.workspace.documents,
      filing.store.read (stepped filing ⟨"s"⟩ subEdits plainEdits twofoldEngine).2.store
        d.path ≠
      filing.store.read (stacked filing ⟨"s"⟩ subEdits plainEdits twofoldEngine).2.store
        d.path := by
  have hdocument : ⟨⟨"/ws/./a.arb"⟩, "def alpha\n"⟩ ∈ twofold.documents := .head _
  refine ⟨.disk, rfl, rfl, ⟨_, _, _, _, _, _, .refl⟩, by decide, twofoldDisk_serves,
    by decide, by decide, _, hdocument, ?_⟩
  rw [store_stacked_twofold, store_stepped_twofold]
  have htogether := twofoldDisk_read plainText_mem subText_mem hdocument
  have hinturn := twofoldDisk_read subText_mem plainText_mem hdocument
  intro heq
  exact absurd (hinturn.symm.trans (heq.trans htogether)) (by decide)

end Engine
end Ripple
