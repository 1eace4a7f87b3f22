import Ripple.Proofs.Engine.Determined

/-!
# Operations come to their outcomes

Where compiling is total, every operation on a session that is there ends in the answer
that its demand comes to without a cache, and it leaves the session and the store as
the demand does.
-/

namespace Ripple

open Cache

variable {σ π α β : Type}

namespace Operation

/-- The operation returns, or it fails with an error. -/
def Ends (op : Operation σ π α) (e : Engine σ π) (result : Except Error α)
    (e' : Engine σ π) : Prop :=
  op.run e = (result.mapError Halt.failed, e')

variable {e e₁ e' : Engine σ π} {op : Operation σ π α}

theorem Returns.bind {k : α → Operation σ π β} {a : α} {result : Except Error β}
    (h : op.Returns e a e₁) (hk : (k a).Ends e₁ result e') : (op >>= k).Ends e result e' :=
  (h.run_bind k).trans hk

/-- An answer may be worked on, and an error is passed on. -/
theorem Ends.map {result : Except Error α} (h : op.Ends e result e') (f : α → β) :
    (do pure (f (← op)) : Operation σ π β).Ends e (result.map f) e' := by
  unfold Ends
  rw [run_bind, h]
  cases result <;> rfl

theorem Returns.map {a : α} (h : op.Returns e a e') (f : α → β) :
    (do pure (f (← op)) : Operation σ π β).Ends e (.ok (f a)) e' := by
  have hends : op.Ends e (.ok a) e' := h
  exact hends.map f

theorem ends_pure (a : α) (e : Engine σ π) : (pure a : Operation σ π α).Ends e (.ok a) e := rfl

theorem ends_fail (error : Error) (e : Engine σ π) :
    (fail error : Operation σ π α).Ends e (.error error) e := rfl

theorem returns_setSession (s : Session) (e : Engine σ π) :
    (setSession s : Operation σ π Unit).Returns e ⟨⟩ (e.setSession s) := rfl

theorem returns_updateTables (f : Tables π → Tables π) (e : Engine σ π) :
    (updateTables f : Operation σ π Unit).Returns e ⟨⟩ (e.updateTables f) := rfl

theorem ends_load (sv : Services σ π) (source : Source) (root : Path) (e : Engine σ π) :
    (load sv source root).Ends e
      ((sv.store.load e.store source root).1.mapError (.loadFailed root))
      { e with store := (sv.store.load e.store source root).2 } := by
  unfold load
  refine (returns_get_iff.mpr ⟨rfl, rfl⟩).bind ?_
  refine ((returns_set_iff (u := ⟨⟩)).mpr rfl).bind ?_
  cases (sv.store.load e.store source root).1 <;> rfl

end Operation

namespace Engine

variable {sv : Services σ π} {streams : Set (List UInt8)} {id : SessionId} {e : Engine σ π}
  {s : Session}

/-!
# What is found out for a session
-/

theorem impactOf_congr {p : ProjectId} {before before' : Except Error (Held (List Diagnostic))}
    (h : before.map Held.value = before'.map Held.value)
    (after : Except Error (List Diagnostic)) :
    impactOf p before after = impactOf p before' after := by
  cases before with
  | error error =>
      cases before' with
      | error error' =>
          cases h
          rfl
      | ok held' => cases h
  | ok held =>
      cases before' with
      | error error' => cases h
      | ok held' =>
          have hvalue : held.value = held'.value := Except.ok.inj h
          cases after with
          | error error => rfl
          | ok ds => simp only [impactOf, hvalue]

theorem map_value_held (b : Backend π) (s : Session) (analyzed : Bool) (p : ProjectId) :
    (s.held b analyzed p).map Held.value = s.listing b analyzed p := by
  unfold Session.held
  cases s.listing b analyzed p <;> rfl

/-- What a project lists can come to one thing only. -/
theorem Hosts.map_value_eq_listing (h : Hosts sv streams id e s)
    (hcompiles : ∀ u, ∃ a, sv.backend.compile u = .compiled a) {analyzed : Bool}
    {p : ProjectId} {result : Except Error (Held (List Diagnostic))}
    (hallows : (uncachedListing s.context sv.backend p s.analyzers analyzed).Allows
      (result.map Held.value)) :
    result.map Held.value = s.listing sv.backend analyzed p :=
  (Context.settled_uncachedListing hcompiles h.complete p s.analyzers analyzed).eq_first hallows

theorem Judges.eq_impact (h : Hosts sv streams id e s)
    (hcompiles : ∀ u, ∃ a, sv.backend.compile u = .compiled a) {analyzed : Bool}
    {p : ProjectId} (hp : p ∈ s.graph.ids) {i : Impact}
    (hjudges : Judges sv.backend s s.overrides analyzed p i) :
    i = s.impact sv.backend analyzed p := by
  cases hjudges with
  | mk hbefore hbuilt =>
      rcases hbuilt.faultless ⟨hcompiles, h.complete⟩ hp with ⟨a, rfl, ha⟩
      have hlisted := (h.map_value_eq_listing hcompiles hbefore).trans
        (map_value_held sv.backend s analyzed p).symm
      have hpreview : s.preview sv.backend analyzed p =
          Plan.collect sv.backend a s.analyzers analyzed := by
        simp only [Session.preview, uncachedListing, ha]
        cases Plan.collect sv.backend a s.analyzers analyzed <;> rfl
      rw [Session.impact, hpreview]
      exact impactOf_congr hlisted _

theorem eq_map_of_forall₂ {xs : List α} {ys : List β} {f : α → β}
    (h : List.Forall₂ (fun x y => y = f x) xs ys) : ys = xs.map f := by
  induction h with
  | nil => rfl
  | cons hfirst _ ih => rw [List.map_cons, hfirst, ih]

/-!
# Operations that do not turn to the store
-/

/-- The store and the configuration are what they were. -/
def Rests (e e' : Engine σ π) : Prop :=
  e'.store = e.store ∧ e'.config = e.config

theorem rests_use (id : SessionId) :
    (Operation.use id : Operation σ π Session).Leaves e.Rests (fun _ => e.Rests) e.Rests :=
  Operation.leaves_use (fun _ _ he _ => he) fun _ he _ => he

theorem rests_applyEdits (sv : Services σ π) (id : SessionId) (edits : List DocumentEdit) :
    (applyEdits sv id edits).Leaves e.Rests (fun _ => e.Rests) e.Rests := by
  unfold applyEdits impacts
  split
  · exact Operation.leaves_fail_bind fun _ he => he
  · refine (rests_use id).bind fun s => ?_
    refine (Operation.leaves_modify (Q := fun _ => e.Rests) fun _ he => he).bind fun _ => ?_
    refine (Operation.Leaves.bind (Operation.leaves_get (Q := fun _ => e.Rests) fun _ he => he)
      fun _ => ?_).bind fun _ => Operation.leaves_pure fun _ he => he
    exact Operation.leaves_performAll fun _ _ he => he

theorem rests_diagnostics (sv : Services σ π) (id : SessionId) (project? : Option ProjectId)
    (analyze? : Option Bool) :
    (diagnostics sv id project? analyze?).Leaves e.Rests (fun _ => e.Rests) e.Rests := by
  have hlists (s : Session) (analyzed : Bool) (p : ProjectId) :
      (projectDiagnostics sv s analyzed p).Leaves e.Rests (fun _ => e.Rests) e.Rests :=
    Operation.leaves_perform fun _ _ he => he
  unfold diagnostics
  refine (rests_use id).bind fun s => ?_
  refine (Operation.leaves_get (Q := fun _ => e.Rests) fun _ he => he).bind fun _ => ?_
  cases project? with
  | some p =>
      refine (hlists s _ p).bind fun result => ?_
      refine (Operation.leaves_ofExcept (Q := fun _ => e.Rests) (fun _ _ he => he)
        fun _ he => he).bind fun _ => ?_
      exact Operation.leaves_pure fun _ he => he
  | none =>
      refine (Operation.leaves_mapM (fun p => ?_) _).bind fun _ =>
        Operation.leaves_pure fun _ he => he
      exact (hlists s _ p).bind fun _ => Operation.leaves_pure fun _ he => he

/-- What an operation leaves that ends. -/
theorem Rests.of_leaves {op : Operation σ π α}
    (hop : op.Leaves e.Rests (fun _ => e.Rests) e.Rests) : e.Rests (op.run e).2 := by
  have hrun := hop e ⟨rfl, rfl⟩
  rcases hout : op.run e with ⟨_ | _, e'⟩ <;> rw [hout] at hrun <;> exact hrun

/-!
# Edits and diagnostics
-/

/-- A batch comes to what is made of it without a cache. -/
theorem Ready.returns_edited (h : Ready sv streams id e s)
    (hcompiles : ∀ u, ∃ a, sv.backend.compile u = .compiled a) {edits : List DocumentEdit}
    (hedits : edits ≠ []) :
    ∃ e' s', (applyEdits sv id edits).Returns e
        (s.edited sv.backend e.config.edits.includeAnalyzers edits).1 e' ∧
      Hosts sv streams id e' s' ∧
      (s.edited sv.backend e.config.edits.includeAnalyzers edits).2.Like s' ∧ e.Rests e' := by
  rcases h.run_applyEdits hedits with ⟨e', hready, _, hruns⟩
  rcases hruns with ⟨found, hreturns, hjudges⟩ | ⟨⟨p, _, hcrashes⟩, _⟩
  · have hused : s.Like { s with lastAccess := e.clock } := ⟨⟨rfl, rfl, rfl, rfl, rfl⟩, rfl⟩
    rcases edited_like hused sv.backend e.config.edits.includeAnalyzers edits with
      ⟨hanswer, hlike⟩
    have hfound : found = (e.listedBy s edits).map
        ((e.stagedIn s edits).2.impact sv.backend e.config.edits.includeAnalyzers) := by
      have hids : ∀ p ∈ e.listedBy s edits, p ∈ (e.stagedIn s edits).2.graph.ids := by
        rw [h.graph_stagedIn]
        exact fun p hp => (mem_affected.mp hp).left
      refine eq_map_of_forall₂ (((List.forall₂_and_left _ _).mpr ⟨hids, hjudges⟩).imp ?_)
      exact fun p i ⟨hp, hi⟩ => hi.eq_impact hready.toHosts hcompiles hp
    have hrests := Rests.of_leaves (rests_applyEdits (e := e) sv id edits)
    rw [show (applyEdits sv id edits).run e = _ from hreturns] at hrests
    refine ⟨e', (e.stagedIn s edits).2, ?_, hready.toHosts, hlike, hrests⟩
    rw [hfound, listedBy, ← h.graph_stagedIn edits] at hreturns
    rw [← hanswer]
    exact hreturns
  · exact (hcrashes.exists_fault hcompiles).elim

/-- A project is listed as without a cache. -/
theorem Ready.returns_listing (h : Ready sv streams id e s)
    (hcompiles : ∀ u, ∃ a, sv.backend.compile u = .compiled a) (analyzed : Bool)
    (p : ProjectId) :
    ∃ result e', (projectDiagnostics sv s analyzed p).Returns e result e' ∧
      result.map Held.value = s.listing sv.backend analyzed p ∧ Ready sv streams id e' s ∧
      e.Rests e' := by
  rcases Schedule.drive_good h.free (Plan.ensures_diagnostics h.free h.named analyzed
      (h.covered p)) h.schedule with ⟨result, schedule, hdrive, hallows, hfollows⟩
  exact ⟨result, _, Operation.returns_perform hdrive, h.map_value_eq_listing hcompiles hallows,
    h.withSchedule hfollows.good, rfl, rfl⟩

theorem entryOf_congr {p : ProjectId} {result result' : Except Error (Held (List Diagnostic))}
    (h : result.map Held.value = result'.map Held.value) : entryOf p result = entryOf p result' := by
  cases result with
  | error error =>
      cases result' with
      | error error' =>
          cases h
          rfl
      | ok held' => cases h
  | ok held =>
      cases result' with
      | error error' => cases h
      | ok held' => exact congrArg (ProjectDiagnostics.mk p · none) (Except.ok.inj h)

/-- All projects are listed as without a cache. -/
theorem Ready.returns_listings (h : Ready sv streams id e s)
    (hcompiles : ∀ u, ∃ a, sv.backend.compile u = .compiled a) (analyzed : Bool)
    (ps : List ProjectId) :
    ∃ e', (ps.mapM fun p => do
        pure (entryOf p (← projectDiagnostics sv s analyzed p)) :
          Operation σ π (List ProjectDiagnostics)).Returns e
        (ps.map fun p => entryOf p (s.held sv.backend analyzed p)) e' ∧
      Ready sv streams id e' s ∧ e.Rests e' := by
  induction ps generalizing e with
  | nil => exact ⟨e, Operation.returns_pure_iff.mpr ⟨rfl, rfl⟩, h, rfl, rfl⟩
  | cons p ps ih =>
      rcases h.returns_listing hcompiles analyzed p with ⟨result, e₁, hfirst, hresult, hready, hrests⟩
      rcases ih hready with ⟨e', hrest, hready', hrests'⟩
      refine ⟨e', ?_, hready', hrests'.left.trans hrests.left, hrests'.right.trans hrests.right⟩
      rw [List.mapM_cons, List.map_cons,
        ← entryOf_congr (hresult.trans (map_value_held sv.backend s analyzed p).symm)]
      refine Operation.returns_bind_iff.mpr ⟨entryOf p result, e₁, ?_, ?_⟩
      · exact Operation.returns_bind_iff.mpr
          ⟨result, e₁, hfirst, Operation.returns_pure_iff.mpr ⟨rfl, rfl⟩⟩
      · exact Operation.returns_bind_iff.mpr
          ⟨_, e', hrest, Operation.returns_pure_iff.mpr ⟨rfl, rfl⟩⟩

/-- Diagnostics are those without a cache. -/
theorem Ready.ends_diagnostics (h : Ready sv streams id e s)
    (hcompiles : ∀ u, ∃ a, sv.backend.compile u = .compiled a) (project? : Option ProjectId)
    (analyze? : Option Bool) :
    ∃ e' s', (diagnostics sv id project? analyze?).Ends e
        (s.diagnosed sv.backend (analyze?.getD e.config.edits.includeAnalyzers) project?) e' ∧
      Hosts sv streams id e' s' ∧ s.Like s' ∧ e.Rests e' := by
  have hused := s.like_use e.clock
  have huse : (Operation.use id).Returns e { s with lastAccess := e.clock }
      (e.setSession { s with lastAccess := e.clock }) :=
    Operation.returns_use_iff.mpr ⟨s, h.session, rfl, rfl⟩
  rw [← hused.diagnosed]
  unfold diagnostics
  cases project? with
  | some p =>
      rcases h.use.returns_listing hcompiles (analyze?.getD e.config.edits.includeAnalyzers) p with
        ⟨result, e', hreturns, hresult, hready, hrests⟩
      refine ⟨e', _, ?_, hready.toHosts, hused, hrests⟩
      refine huse.bind ?_
      refine (Operation.returns_get_iff.mpr ⟨rfl, rfl⟩).bind ?_
      refine hreturns.bind ?_
      simp only [Session.diagnosed, ← hresult]
      cases result <;> rfl
  | none =>
      rcases h.use.returns_listings hcompiles (analyze?.getD e.config.edits.includeAnalyzers)
          s.graph.topologicalOrder with ⟨e', hreturns, hready, hrests⟩
      refine ⟨e', _, ?_, hready.toHosts, hused, hrests⟩
      refine huse.bind ?_
      refine (Operation.returns_get_iff.mpr ⟨rfl, rfl⟩).bind ?_
      exact hreturns.bind (Operation.ends_pure _ _)

/-!
# Commits
-/

/-- Texts are written and folded in one after the other. -/
theorem Hosts.returns_committed (h : Hosts sv streams id e s) (edits : List PendingEdit)
    (report : CommitReport) :
    ∃ e', (edits.foldlM (commitEdit sv id) report).Returns e
        (committed sv.store edits report s e.store).1 e' ∧
      Hosts sv streams id e' (committed sv.store edits report s e.store).2.1 ∧
      e'.store = (committed sv.store edits report s e.store).2.2 ∧ e'.config = e.config := by
  induction edits generalizing e s report with
  | nil => exact ⟨e, Operation.returns_pure_iff.mpr ⟨rfl, rfl⟩, h, rfl, rfl⟩
  | cons edit rest ih =>
      rw [List.foldlM_cons]
      unfold committed
      rcases hwrite : sv.store.write e.store edit.path edit.text with ⟨cause | _, store⟩
      · have hstored : Hosts sv streams id { e with store := store } s :=
          ⟨h.schedule, h.session, h.keyed, h.formed⟩
        rcases ih hstored { report with
            failed := report.failed ++ [⟨edit.path, .writeFailed edit.path cause.message⟩] } with
          ⟨e', hrest, hhosts, hstore, hconfig⟩
        refine ⟨e', Operation.returns_bind_iff.mpr ⟨_, _, ?_, hrest⟩, hhosts, hstore, hconfig⟩
        refine Operation.returns_bind_iff.mpr
          ⟨_, _, Operation.returns_writeText_iff.mpr ⟨rfl, rfl⟩, ?_⟩
        rw [hwrite]
        exact Operation.returns_pure_iff.mpr ⟨rfl, rfl⟩
      · have hfirst : (commitEdit sv id report edit).Returns e _ (wrote sv id e s edit) :=
          returns_commitEdit h.session report edit (congrArg Prod.fst hwrite)
        have hstored : (wrote sv id e s edit).store = store := congrArg Prod.snd hwrite
        rcases ih (hosts_wrote h edit) { report with
            written := report.written ++ [edit.path]
            invalidated := addNew report.invalidated
              (Tables.affectedBy (s.settle edit).graph edit.project) } with
          ⟨e', hrest, hhosts, hstore, hconfig⟩
        rw [hstored, (s.alike_settle edit).graph] at hrest hhosts hstore
        rw [(s.alike_settle edit).graph] at hfirst
        exact ⟨e', Operation.returns_bind_iff.mpr ⟨_, _, hfirst, hrest⟩, hhosts, hstore, hconfig⟩

/-- What a session is marked as has no part in its answers. -/
theorem Hosts.returns_marked (h : Hosts sv streams id e s) (report : CommitReport) (marks : Bool) :
    ∃ e' s', (if marks then do
        Operation.setSession { s with phase := .committed }
        pure report
      else pure report : Operation σ π CommitReport).Returns e report e' ∧
      Hosts sv streams id e' s' ∧ s.Like s' ∧ e.Rests e' := by
  cases marks with
  | false => exact ⟨e, s, Operation.returns_pure_iff.mpr ⟨rfl, rfl⟩, h, .refl s, rfl, rfl⟩
  | true =>
      refine ⟨e.setSession { s with phase := .committed }, _, ?_,
        h.setSession (h.formed.step (.enter .committed)) rfl, ⟨⟨rfl, rfl, rfl, rfl, rfl⟩, rfl⟩, rfl, rfl⟩
      refine Operation.returns_bind_iff.mpr
        ⟨⟨⟩, _, Operation.returns_setSession_iff.mpr rfl, ?_⟩
      exact Operation.returns_pure_iff.mpr ⟨rfl, rfl⟩

theorem Hosts.ends_commit (h : Hosts sv streams id e s) :
    ∃ e' s', (commit sv id).Returns e
        (committed sv.store s.pendingEdits .empty s e.store).1 e' ∧
      Hosts sv streams id e' s' ∧
      (committed sv.store s.pendingEdits .empty s e.store).2.1.Like s' ∧
      e'.store = (committed sv.store s.pendingEdits .empty s e.store).2.2 ∧
      e'.config = e.config := by
  have hused := s.like_use e.clock
  rcases committed_like sv.store hused s.pendingEdits .empty e.store with ⟨hreport, hlike, hstore⟩
  rcases h.use.returns_committed s.pendingEdits .empty with ⟨e₁, hedits, hhosts, hstore₁, hconfig⟩
  rcases hhosts.returns_marked _ _ with ⟨e', s', hmarked, hhosts', hlike', hrests⟩
  refine ⟨e', s', ?_, hhosts', hlike.trans hlike', ?_, hrests.right.trans hconfig⟩
  · rw [← hreport]
    unfold commit
    refine Operation.returns_bind_iff.mpr
      ⟨_, _, Operation.returns_use_iff.mpr ⟨s, h.session, rfl, rfl⟩, ?_⟩
    refine Operation.returns_bind_iff.mpr ⟨_, _, hedits, ?_⟩
    exact Operation.returns_bind_iff.mpr
      ⟨_, _, Operation.returns_find_iff.mpr ⟨hhosts.session, rfl⟩, hmarked⟩
  · exact (hrests.left.trans hstore₁).trans hstore

/-!
# Workspaces loaded anew
-/

theorem Hosts.abortPrewarm (h : Hosts sv streams id e s) (t : Session) :
    Hosts sv streams id (e.abortPrewarm t) s ∧ e.Rests (e.abortPrewarm t) := by
  unfold Engine.abortPrewarm
  cases t.prewarm with
  | none => exact ⟨h, rfl, rfl⟩
  | some batch => exact ⟨⟨h.schedule.abortBatch batch, h.session, h.keyed, h.formed⟩, rfl, rfl⟩

theorem get?_prewarm (h : e.sessions.get? id = some s) (hkeyed : s.id = id) :
    ∃ batch, (e.prewarm s).sessions.get? id = some { s with prewarm := batch } := by
  subst hkeyed
  simp only [Engine.prewarm]
  split
  · exact ⟨s.prewarm, h⟩
  · exact ⟨_, Table.get?_insert_self _ _ _⟩

/-- Leaves may be requested of what is hashed without collisions. -/
theorem Hosts.prewarm (h : Hosts sv streams id e s)
    (hcovered : ∀ p, s.context.Covered sv.backend.environment streams p) :
    ∃ s', Hosts sv streams id (e.prewarm s) s' ∧ s.Like s' ∧ e.Rests (e.prewarm s) := by
  simp only [Engine.prewarm]
  split
  · exact ⟨s, h, .refl s, rfl, rfl⟩
  · have hsound : ∀ r ∈ s.graph.leaves.map (Request.of s.context),
        r.Sound sv.backend streams (e.abortPrewarm s).schedule.machine := by
      intro r hr
      rcases List.mem_map.mp hr with ⟨p, _, rfl⟩
      exact ⟨hcovered p, trivial⟩
    have hbatch := (h.abortPrewarm s).left.schedule.startBatch hsound
    have hstarted : Hosts sv streams id { e with schedule := (Schedule.startBatch _ _).2 } s :=
      ⟨hbatch, h.session, h.keyed, h.formed⟩
    exact ⟨_, hstarted.setSession (h.formed.step (.prewarm _)) rfl,
      ⟨⟨rfl, rfl, rfl, rfl, rfl⟩, rfl⟩, rfl, rfl⟩

/-- The session that a refresh puts in. -/
def renewed (s : Session) (w : Workspace) : Session :=
  { (s.discardPending.replaceWorkspace w) with phase := .clean, prewarm := none }

/-- The engine that has a workspace loaded anew, before the leaves are compiled ahead. -/
def renewing (e : Engine σ π) (s : Session) (w : Workspace) (store : σ) : Engine σ π :=
  let loaded := { e.setSession { s with lastAccess := e.clock } with store := store }
  ((loaded.abortPrewarm s).setSession (renewed { s with lastAccess := e.clock } w)).updateTables
    fun t => t.invalidateSession s.id

theorem returns_use (hsession : e.sessions.get? id = some s) :
    (Operation.use id).Returns e { s with lastAccess := e.clock }
      (e.setSession { s with lastAccess := e.clock }) :=
  Operation.returns_use_iff.mpr ⟨s, hsession, rfl, rfl⟩

/-- If the workspace cannot be loaded then the session is left alone. -/
theorem ends_refresh_of_error (hsession : e.sessions.get? id = some s) {cause : String} {store : σ}
    (hload : sv.store.load e.store s.source s.root = (.error cause, store)) :
    (refresh sv id).Ends e (.error (.loadFailed s.root cause))
      { e.setSession { s with lastAccess := e.clock } with store := store } := by
  have hloads := Operation.ends_load sv s.source s.root
    (e.setSession { s with lastAccess := e.clock })
  rw [show (e.setSession { s with lastAccess := e.clock }).store = e.store from rfl, hload]
    at hloads
  unfold refresh
  refine (returns_use hsession).bind ?_
  unfold Operation.Ends
  rw [Operation.run_bind, hloads]
  rfl

theorem returns_refresh (hsession : e.sessions.get? id = some s) (hkeyed : s.id = id)
    {w : Workspace} {store : σ}
    (hload : sv.store.load e.store s.source s.root = (.ok w, store)) :
    (refresh sv id).Returns e ()
      ((e.renewing s w store).prewarm (renewed { s with lastAccess := e.clock } w)) := by
  have hloads : (Operation.load sv s.source s.root).Returns
      (e.setSession { s with lastAccess := e.clock }) w
      { e.setSession { s with lastAccess := e.clock } with store := store } := by
    have hends := Operation.ends_load sv s.source s.root
      (e.setSession { s with lastAccess := e.clock })
    rw [show (e.setSession { s with lastAccess := e.clock }).store = e.store from rfl, hload]
      at hends
    exact hends
  unfold refresh
  refine Operation.returns_bind_iff.mpr ⟨_, _, returns_use hsession, ?_⟩
  refine Operation.returns_bind_iff.mpr ⟨_, _, hloads, ?_⟩
  refine Operation.returns_bind_iff.mpr ⟨⟨⟩, _, Operation.returns_modify_iff.mpr rfl, ?_⟩
  refine Operation.returns_bind_iff.mpr ⟨⟨⟩, _, Operation.returns_setSession_iff.mpr rfl, ?_⟩
  refine Operation.returns_bind_iff.mpr ⟨⟨⟩, _, Operation.returns_updateTables_iff.mpr rfl, ?_⟩
  refine Operation.returns_modify_iff.mpr ?_
  rw [← hkeyed]
  rfl

/-- The engine hosts what has been loaded. -/
theorem Hosts.renewing (h : Hosts sv streams id e s) (w : Workspace) (store : σ) :
    Hosts sv streams id (e.renewing s w store) (renewed { s with lastAccess := e.clock } w) := by
  have hloaded : Hosts sv streams id
      { e.setSession { s with lastAccess := e.clock } with store := store }
      { s with lastAccess := e.clock } :=
    ⟨h.use.schedule, h.use.session, h.use.keyed, h.use.formed⟩
  have hformed : (renewed { s with lastAccess := e.clock } w).Formed :=
    ((h.use.formed.step (.reload w)).step (.enter .clean)).step (.prewarm none)
  exact ((hloaded.abortPrewarm s).left.setSession hformed rfl).updateTables
    (Tables.within_invalidateSession _ _)

/-- Nothing of the session is left. -/
theorem Hosts.removed (h : Hosts sv streams id e s) :
    (e.remove s).schedule.Good sv.backend streams ∧ (e.remove s).sessions.get? id = none ∧
      e.Rests (e.remove s) := by
  have hmissing : (e.sessions.erase s.id).get? id = none := by
    rw [Table.get?_erase, if_pos h.keyed.symm]
  have haborted : ({ e with sessions := e.sessions.erase s.id }.abortPrewarm s).schedule.Good
      sv.backend streams := by
    unfold Engine.abortPrewarm
    cases s.prewarm with
    | none => exact h.schedule
    | some batch => exact h.schedule.abortBatch batch
  refine ⟨(Schedule.Follows.updateTables haborted (Tables.within_invalidateSession _ _)).good,
    ?_, ?_⟩
  · simp only [Engine.remove, Engine.abortPrewarm]
    cases s.prewarm <;> exact hmissing
  · simp only [Engine.remove, Engine.abortPrewarm]
    cases s.prewarm <;> exact ⟨rfl, rfl⟩

/-!
# Documents read again
-/

/-- The engine that has a new content of a document folded in. -/
def refolding (e : Engine σ π) (s : Session) (path : Path) (p : ProjectId) (content : String) :
    Engine σ π :=
  (e.setSession (((s.updateDocument path content).map Prod.snd).getD s)).updateTables fun t =>
    t.invalidateDownstream s.id s.graph p

section Reload

variable {path : Path}

theorem ends_reload_of_missing (hsession : e.sessions.get? id = some s)
    (hfound : s.workspace.document? (s.workspace.resolve path) = none) :
    (reload sv id path).Ends e (.error (.documentNotFound (s.workspace.resolve path))) e := by
  unfold reload
  refine (Operation.returns_find_iff.mpr ⟨hsession, rfl⟩).bind ?_
  simp only [hfound]
  exact Operation.ends_fail _ _

theorem returns_readText (sv : Services σ π) (path : Path) (e : Engine σ π) :
    (Operation.readText sv path).Returns e (sv.store.read e.store path) e := rfl

theorem ends_reload_of_unreadable (hsession : e.sessions.get? id = some s) {p : Project}
    {d : Document} (hfound : s.workspace.document? (s.workspace.resolve path) = some (p, d))
    {cause : FileError}
    (hread : sv.store.read e.store (s.workspace.resolve path) = .error cause) :
    (reload sv id path).Ends e
      (.error (.readFailed (s.workspace.resolve path) cause.message)) e := by
  unfold reload
  refine (Operation.returns_find_iff.mpr ⟨hsession, rfl⟩).bind ?_
  simp only [hfound]
  refine (returns_readText sv _ e).bind ?_
  simp only [hread]
  exact Operation.ends_fail _ _

theorem returns_reload_of_same (hsession : e.sessions.get? id = some s) {p : Project}
    {d : Document} (hfound : s.workspace.document? (s.workspace.resolve path) = some (p, d))
    (hread : sv.store.read e.store (s.workspace.resolve path) = .ok d.content) :
    (reload sv id path).Returns e [] e := by
  unfold reload
  refine Operation.returns_bind_iff.mpr ⟨s, e, Operation.returns_find_iff.mpr ⟨hsession, rfl⟩, ?_⟩
  simp only [hfound]
  refine Operation.returns_bind_iff.mpr ⟨_, e, returns_readText sv _ e, ?_⟩
  simp only [hread, if_true]
  exact Operation.returns_pure_iff.mpr ⟨rfl, rfl⟩

theorem returns_reload (hsession : e.sessions.get? id = some s) (hkeyed : s.id = id)
    {p : Project} {d : Document}
    (hfound : s.workspace.document? (s.workspace.resolve path) = some (p, d)) {content : String}
    (hread : sv.store.read e.store (s.workspace.resolve path) = .ok content)
    (hnew : content ≠ d.content) :
    (reload sv id path).Returns e (Tables.affectedBy s.graph p.id)
      (e.refolding s (s.workspace.resolve path) p.id content) := by
  have hgraph : (((s.updateDocument (s.workspace.resolve path) content).map
      Prod.snd).getD s).graph = s.graph := by
    rw [Session.updateDocument_getD]
  unfold reload
  refine Operation.returns_bind_iff.mpr ⟨s, e, Operation.returns_find_iff.mpr ⟨hsession, rfl⟩, ?_⟩
  simp only [hfound]
  refine Operation.returns_bind_iff.mpr ⟨_, e, returns_readText sv _ e, ?_⟩
  simp only [hread, if_neg hnew]
  refine Operation.returns_bind_iff.mpr ⟨⟨⟩, _, Operation.returns_setSession _ _, ?_⟩
  rw [hgraph, refolding, hkeyed]
  refine Operation.returns_bind_iff.mpr ⟨⟨⟩, _, Operation.returns_updateTables _ _, ?_⟩
  exact Operation.returns_pure_iff.mpr ⟨rfl, rfl⟩

end Reload

theorem Hosts.ends_reload (h : Hosts sv streams id e s) (path : Path) :
    ∃ e', (reload sv id path).Ends e (reloaded sv.store path s e.store).1 e' ∧
      Hosts sv streams id e' (reloaded sv.store path s e.store).2 ∧ e.Rests e' := by
  unfold reloaded
  cases hfound : s.workspace.document? (s.workspace.resolve path) with
  | none => exact ⟨e, ends_reload_of_missing h.session hfound, h, rfl, rfl⟩
  | some found =>
      cases hread : sv.store.read e.store (s.workspace.resolve path) with
      | error cause => exact ⟨e, ends_reload_of_unreadable h.session hfound hread, h, rfl, rfl⟩
      | ok content =>
          by_cases hsame : content = found.2.content
          · simp only [if_pos hsame]
            subst hsame
            exact ⟨e, returns_reload_of_same h.session hfound hread, h, rfl, rfl⟩
          · simp only [if_neg hsame]
            have hset := h.setSession (h.formed.update (s.workspace.resolve path) content) (by
              rw [Session.updateDocument_getD])
            exact ⟨_, returns_reload h.session h.keyed hfound hread hsame,
              hset.updateTables (Tables.within_invalidateDownstream _ _ _ _), rfl, rfl⟩

/-!
# Every demand comes to its outcome
-/

/-- The engine is left as an outcome says. -/
def Outcome.Met (o : Outcome σ) (sv : Services σ π) (streams : Set (List UInt8))
    (id : SessionId) (e : Engine σ π) : Prop :=
  e.store = o.store ∧
    match o.session with
    | some s => ∃ s', Hosts sv streams id e s' ∧ s.Like s'
    | none => e.schedule.Good sv.backend streams ∧ e.sessions.get? id = none

/-- What is hashed for a session is among streams, if the session is there. -/
def Known (sv : Services σ π) (streams : Set (List UInt8)) (id : SessionId)
    (e : Engine σ π) : Prop :=
  ∀ s, e.sessions.get? id = some s → ∀ p, s.context.Covered sv.backend.environment streams p

theorem Ready.ends_demand (h : Ready sv streams id e s)
    (hcompiles : ∀ u, ∃ a, sv.backend.compile u = .compiled a) (d : Demand)
    (hknown : d = .refresh → Known sv streams id ((d.operation sv id).run e).2) :
    ∃ e', (d.operation sv id).Ends e
        (d.outcome sv e.config.edits.includeAnalyzers s e.store).answer e' ∧
      (d.outcome sv e.config.edits.includeAnalyzers s e.store).Met sv streams id e' ∧
      e'.config = e.config := by
  have huse : (Operation.use id).Returns e { s with lastAccess := e.clock }
      (e.setSession { s with lastAccess := e.clock }) :=
    Operation.returns_use_iff.mpr ⟨s, h.session, rfl, rfl⟩
  have hused := s.like_use e.clock
  have hunread : Outcome.Met ⟨.ok .done, some s, e.store⟩ sv streams id
      (e.setSession { s with lastAccess := e.clock }) :=
    ⟨rfl, _, h.use.toHosts, hused⟩
  cases d with
  | applyEdit edit =>
      rcases h.returns_edited hcompiles (List.cons_ne_nil edit []) with
        ⟨e', s', hreturns, hhosts, hlike, hrests⟩
      have hends : (applyEdit sv id edit).Ends e
          (s.edited sv.backend e.config.edits.includeAnalyzers [edit]).1.alone e' := by
        refine hreturns.bind ?_
        unfold EditOutcome.alone
        cases (s.edited sv.backend e.config.edits.includeAnalyzers [edit]).1.edits.head?.bind
          EditResult.error <;> rfl
      exact ⟨e', hends.map _, ⟨hrests.left, s', hhosts, hlike⟩, hrests.right⟩
  | applyEdits edits =>
      by_cases hedits : edits = []
      · subst hedits
        exact ⟨e, rfl, ⟨rfl, s, h.toHosts, .refl s⟩, rfl⟩
      · rcases h.returns_edited hcompiles hedits with ⟨e', s', hreturns, hhosts, hlike, hrests⟩
        have hempty : ¬ edits.isEmpty := by simpa using hedits
        simp only [Demand.outcome, if_neg hempty]
        exact ⟨e', hreturns.map _,
          ⟨hrests.left, s', hhosts, hlike⟩, hrests.right⟩
  | commit =>
      rcases h.toHosts.ends_commit with ⟨e', s', hreturns, hhosts, hlike, hstore, hconfig⟩
      exact ⟨e', hreturns.map _, ⟨hstore, s', hhosts, hlike⟩,
        hconfig⟩
  | rollback =>
      have hends : (rollback id : Operation σ π Nat).Ends e (.ok s.pending.size) _ :=
        huse.bind ((Operation.returns_setSession _ _).bind (Operation.ends_pure _ _))
      have hformed : ({ ({ s with lastAccess := e.clock } : Session).discardPending with
          phase := .rolledBack } : Session).Formed :=
        (h.use.formed.step .discard).step (.enter .rolledBack)
      exact ⟨_, hends.map _, ⟨rfl, _, h.use.toHosts.setSession hformed rfl,
        ⟨⟨rfl, rfl, rfl, rfl, rfl⟩, rfl⟩⟩, rfl⟩
  | pendingEdits =>
      have hends : (pendingEdits id : Operation σ π _).Ends e (.ok s.pendingEdits) _ :=
        huse.bind (Operation.ends_pure _ _)
      exact ⟨_, hends.map _, hunread, rfl⟩
  | diagnostics project? analyze? =>
      rcases h.ends_diagnostics hcompiles project? analyze? with ⟨e', s', hends, hhosts, hlike, hrests⟩
      exact ⟨e', hends.map _, ⟨hrests.left, s', hhosts, hlike⟩, hrests.right⟩
  | invalidateProject p =>
      simp only [Demand.outcome]
      by_cases hp : s.graph.contains p
      · have hends : (invalidateProject id p).Ends e (.ok (Tables.affectedBy s.graph p))
            ((e.setSession { s with lastAccess := e.clock }).updateTables fun t =>
              t.invalidateDownstream id s.graph p) := by
          unfold invalidateProject
          refine huse.bind ?_
          simp only [hp]
          exact (Operation.returns_updateTables _ _).bind (Operation.ends_pure _ _)
        rw [if_pos hp]
        exact ⟨_, hends.map _, ⟨rfl, _, h.use.toHosts.updateTables
          (Tables.within_invalidateDownstream _ _ _ _), hused⟩, rfl⟩
      · have hends : (invalidateProject id p).Ends e (.error (.projectNotFound p))
            (e.setSession { s with lastAccess := e.clock }) := by
          unfold invalidateProject
          refine huse.bind ?_
          simp only [hp]
          exact Operation.ends_fail _ _
        rw [if_neg hp]
        exact ⟨_, hends.map _, hunread, rfl⟩
  | graphSummary =>
      have hends : (graphSummary id : Operation σ π _).Ends e (.ok (.of s.workspace s.graph)) _ :=
        huse.bind (Operation.ends_pure _ _)
      exact ⟨_, hends.map _, hunread, rfl⟩
  | refresh =>
      simp only [Demand.outcome]
      rcases hload : sv.store.load e.store s.source s.root with ⟨cause | w, store⟩
      · have hends := (ends_refresh_of_error h.session hload).map fun _ => Answer.done
        exact ⟨_, hends, ⟨rfl, _, ⟨h.use.schedule, h.use.session, h.use.keyed, h.use.formed⟩,
          hused⟩, rfl⟩
      · have hreturns := returns_refresh h.session h.keyed hload
        have hrenewing := h.toHosts.renewing w store
        have hcovered : ∀ p, (renewed { s with lastAccess := e.clock } w).context.Covered
            sv.backend.environment streams p := by
          have hends := hreturns.map fun _ => Answer.done
          rcases get?_prewarm hrenewing.session hrenewing.keyed with ⟨batch, hbatch⟩
          refine hknown rfl { renewed { s with lastAccess := e.clock } w with prewarm := batch } ?_
          rw [show (Demand.refresh.operation sv id).run e = _ from hends]
          exact hbatch
        rcases hrenewing.prewarm hcovered with ⟨s', hhosts, hlike, hrests⟩
        have hrenewed : (s.discardPending.replaceWorkspace w).Like
            (renewed { s with lastAccess := e.clock } w) := ⟨⟨rfl, rfl, rfl, rfl, rfl⟩, rfl⟩
        have habort : (e.renewing s w store).store = store ∧
            (e.renewing s w store).config = e.config := by
          simp only [Engine.renewing, Engine.abortPrewarm]
          cases s.prewarm <;> exact ⟨rfl, rfl⟩
        exact ⟨_, hreturns.map fun _ => Answer.done,
          ⟨hrests.left.trans habort.left, s', hhosts, hrenewed.trans hlike⟩,
          hrests.right.trans habort.right⟩
  | reload path =>
      rcases h.toHosts.ends_reload path with ⟨e', hends, hhosts, hrests⟩
      exact ⟨e', hends.map _, ⟨hrests.left, _, hhosts, .refl _⟩, hrests.right⟩
  | pause =>
      have hends : (pause id : Operation σ π Unit).Ends e (.ok ()) _ :=
        huse.bind (Operation.returns_setSession _ _)
      exact ⟨_, hends.map fun _ => Answer.done, ⟨rfl, _, h.use.toHosts.setSession
        (h.use.formed.step (.pause true)) rfl, ⟨⟨rfl, rfl, rfl, rfl, rfl⟩, rfl⟩⟩, rfl⟩
  | unpause =>
      have hends : (unpause id : Operation σ π Unit).Ends e (.ok ()) _ :=
        huse.bind (Operation.returns_setSession _ _)
      exact ⟨_, hends.map fun _ => Answer.done, ⟨rfl, _, h.use.toHosts.setSession
        (h.use.formed.step (.pause false)) rfl, ⟨⟨rfl, rfl, rfl, rfl, rfl⟩, rfl⟩⟩, rfl⟩
  | status =>
      have hends : (status id : Operation σ π SessionStatus).Ends e (.ok _) _ :=
        huse.bind ((Operation.returns_get_iff.mpr ⟨rfl, rfl⟩).bind (Operation.ends_pure _ _))
      exact ⟨_, hends.map fun _ => Answer.done, hunread, rfl⟩
  | finish =>
      have hends : (finish id : Operation σ π Unit).Ends e (.ok ()) (e.remove s) :=
        (Operation.returns_find_iff.mpr ⟨h.session, rfl⟩).bind rfl
      rcases h.toHosts.removed with ⟨hgood, hmissing, hrests⟩
      exact ⟨_, hends.map fun _ => Answer.done, ⟨hrests.left, hgood, hmissing⟩, hrests.right⟩

end Engine
end Ripple
