import Mathlib.Data.List.Find
import Ripple.Proofs.Cache.Failures
import Ripple.Proofs.Engine.Preview

/-!
# How far panics reach

A compile that panics in a task is an error of the task, and reaches only projects
that need the one it was for. A compile that panics in a speculative build takes the
whole batch down with it.
-/

namespace Ripple

open Cache

variable {σ π : Type} {b b' : Backend π} {bad : Set ProjectId}

/-- The compiles of these projects panic, and no others. -/
def Backend.PanicsOn (b : Backend π) (bad : Set ProjectId) : Prop :=
  ∀ u, b.compile u = .panicked ↔ u.project ∈ bad

/-- Two backends differ in the compiles of these projects at most. -/
structure Backend.AgreesBeyond (b : Backend π) (bad : Set ProjectId) (b' : Backend π) :
    Prop where
  compile : ∀ u, u.project ∉ bad → b'.compile u = b.compile u
  diagnostics : b'.diagnostics = b.diagnostics
  analyze : b'.analyze = b.analyze

theorem Backend.AgreesBeyond.collect_eq (h : b.AgreesBeyond bad b') (a : Artifact π)
    (set : AnalyzerSet) (analyzed : Bool) :
    Plan.collect b' a set analyzed = Plan.collect b a set analyzed := by
  rw [Plan.collect, h.diagnostics, h.analyze, Plan.collect]

namespace Context

variable {ctx : Context}

/-!
# Builds that need nothing bad
-/

theorem uncachedAll_congr {ids : List ProjectId}
    (h : ∀ c ∈ ids, ctx.uncached b' c = ctx.uncached b c) :
    ctx.uncachedAll b' ids = ctx.uncachedAll b ids := by
  unfold uncachedAll
  congr 1
  exact List.map_congr_left fun c hc => by rw [h c hc]

theorem compile_eq_of_avoids (hagrees : b.AgreesBeyond bad b') {id : ProjectId} {p : Project}
    (hp : ctx.workspace.project? id = some p) (h : ctx.graph.Avoids bad id)
    (references : List (Artifact π)) :
    b'.compile (.ofProject p references) = b.compile (.ofProject p references) := by
  apply hagrees.compile
  rw [CompileUnit.ofProject, (project?_mem hp).right]
  exact h id .refl

theorem uncached_eq_of_avoids (hagrees : b.AgreesBeyond bad b') {id : ProjectId}
    (h : ctx.graph.Avoids bad id) : ctx.uncached b' id = ctx.uncached b id := by
  induction id using ctx.graph.effective_induction with
  | step id ih =>
      rw [uncached_eq, uncached_eq,
        uncachedAll_congr fun c hc => ih c hc (h.of_needs (.single hc))]
      cases hp : ctx.workspace.project? id with
      | none => rfl
      | some p =>
          simp only
          cases ctx.uncachedAll b (ctx.graph.effectiveDependencies id) with
          | error es => rfl
          | ok references => simp only [compile_eq_of_avoids hagrees hp h]

theorem uncachedListing_eq_of_avoids (hagrees : b.AgreesBeyond bad b') {id : ProjectId}
    (h : ctx.graph.Avoids bad id) (set : AnalyzerSet) (analyzed : Bool) :
    uncachedListing ctx b' id set analyzed = uncachedListing ctx b id set analyzed := by
  unfold uncachedListing
  rw [uncached_eq_of_avoids hagrees h]
  cases ctx.uncached b id with
  | error es => rfl
  | ok a => simp only [hagrees.collect_eq]

theorem panics_iff_of_avoids (hagrees : b.AgreesBeyond bad b') {id : ProjectId}
    (h : ctx.graph.Avoids bad id) : ctx.Panics b' id ↔ ctx.Panics b id := by
  unfold Panics
  rw [uncachedAll_congr fun c hc => uncached_eq_of_avoids hagrees (h.of_needs (.single hc))]
  refine exists_congr fun p => exists_congr fun references => ?_
  refine and_congr_right fun hp => and_congr_right fun _ => ?_
  rw [compile_eq_of_avoids hagrees hp h]

/-!
# Builds that need something bad
-/

theorem mem_of_all_error {α : Type} {below : List (ProjectId × Verdict α)} {es : List Error}
    {e : Error} (h : Verdict.all below = .error es) (he : e ∈ es) :
    ∃ id es', (id, .error es') ∈ below ∧ e ∈ es' := by
  induction below generalizing es with
  | nil => cases h
  | cons row rest ih =>
      rcases row with ⟨id, _ | a⟩
      · rename_i es'
        simp only [Verdict.all] at h
        cases hrest : Verdict.all rest with
        | ok as =>
            rw [hrest] at h
            cases h
            exact ⟨id, es, List.mem_cons_self, he⟩
        | error more =>
            rw [hrest] at h
            cases h
            rcases List.mem_append.mp he with he | he
            · exact ⟨id, es', List.mem_cons_self, he⟩
            · rcases ih hrest he with ⟨c, es'', hmem, he⟩
              exact ⟨c, es'', List.mem_cons_of_mem _ hmem, he⟩
      · simp only [Verdict.all] at h
        cases hrest : Verdict.all rest with
        | ok as =>
            rw [hrest] at h
            cases h
        | error more =>
            rw [hrest] at h
            cases h
            rcases ih hrest he with ⟨c, es', hmem, he⟩
            exact ⟨c, es', List.mem_cons_of_mem _ hmem, he⟩

/-- All errors of a project of the graph are complaints of the backend. -/
theorem backend_of_uncached (hctx : ctx.Complete) {id : ProjectId} (hid : id ∈ ctx.graph.ids)
    {es : List Error} (h : ctx.uncached b id = .error es) {e : Error} (he : e ∈ es) :
    ∃ cause, e = .backend cause := by
  induction id using ctx.graph.effective_induction generalizing es with
  | step id ih =>
      rcases hctx id hid with ⟨p, hp⟩
      rw [uncached_eq, hp] at h
      cases hall : ctx.uncachedAll b (ctx.graph.effectiveDependencies id) with
      | error es' =>
          rw [hall] at h
          cases h
          rcases mem_of_all_error hall he with ⟨c, es', hmem, he⟩
          rcases List.mem_map.mp hmem with ⟨d, hd, heq⟩
          rcases Prod.mk.inj heq with ⟨_, hbuild⟩
          exact ih d hd (Graph.mem_ids_of_effective hd) hbuild he
      | ok references =>
          simp only [hall] at h
          cases hcompile : b.compile (.ofProject p references) with
          | compiled a =>
              rw [hcompile] at h
              cases h
          | failed cause =>
              rw [hcompile] at h
              cases h
              exact ⟨_, List.mem_singleton.mp he⟩
          | panicked =>
              rw [hcompile] at h
              cases h
              exact ⟨_, List.mem_singleton.mp he⟩

theorem error_of_not_avoids (hpanics : b.PanicsOn bad) {id : ProjectId}
    (h : ¬ ctx.graph.Avoids bad id) : ∃ es, ctx.uncached b id = .error es := by
  cases hbuild : ctx.uncached b id with
  | error es => exact ⟨es, rfl⟩
  | ok a =>
      apply absurd _ h
      intro c hc hbad
      rcases isOk_of_needs hc ⟨a, hbuild⟩ with ⟨a', ha'⟩
      rcases exists_compiled_of_uncached ha' with ⟨u, rfl, hu⟩
      rw [(hpanics u).mpr hbad] at hu
      cases hu

end Context

/-!
# Listings and speculative builds
-/

theorem backend_of_collect {a : Artifact π} {set : AnalyzerSet} {analyzed : Bool} {e : Error}
    (h : Plan.collect b a set analyzed = .error e) : ∃ cause, e = .backend cause := by
  unfold Plan.collect at h
  by_cases hanalyzed : (analyzed && !set.isEmpty) = true
  · rw [if_pos hanalyzed] at h
    cases ha : b.analyze a set with
    | ok found =>
        rw [ha] at h
        cases h
    | error cause =>
        rw [ha] at h
        cases h
        exact ⟨_, rfl⟩
  · rw [if_neg hanalyzed] at h
    cases h

theorem backend_of_uncachedListing {ctx : Context} (hctx : ctx.Complete) {id : ProjectId}
    (hid : id ∈ ctx.graph.ids) {set : AnalyzerSet} {analyzed : Bool} {e : Error}
    (h : (uncachedListing ctx b id set analyzed).Allows (.error e)) :
    ∃ cause, e = .backend cause := by
  rcases h with ⟨es, hes, he⟩
  unfold uncachedListing at hes
  cases hbuild : ctx.uncached b id with
  | error es' =>
      rw [hbuild] at hes
      cases hes
      exact Context.backend_of_uncached hctx hid hbuild he
  | ok a =>
      simp only [hbuild] at hes
      cases hcollect : Plan.collect b a set analyzed with
      | ok ds => simp [hcollect] at hes
      | error e' =>
          simp only [hcollect] at hes
          cases hes
          rw [List.mem_singleton.mp he]
          exact backend_of_collect hcollect

namespace Cache.Plan

variable {ctx : Context} {overrides : Overrides} {target : ProjectId}

theorem stop?_eq_of_avoids (hagrees : b.AgreesBeyond bad b')
    (h : ∀ c ∈ rebuilt ctx overrides target, ctx.graph.Avoids bad c) :
    stop? b' ctx overrides target = stop? b ctx overrides target := by
  unfold stop?
  refine List.find?_congr fun c hc => ?_
  have havoids : (ctx.override overrides).graph.Avoids bad c := h c hc
  rw [Context.uncached_eq_of_avoids hagrees havoids]

/-- A speculative build that needs nothing bad may come to the same with both backends. -/
theorem Speculates.of_avoids (hagrees : b.AgreesBeyond bad b')
    (h : ∀ c ∈ deciding ctx overrides target, ctx.graph.Avoids bad c)
    {result : Except Error (Artifact π)} (hspeculates : Speculates b ctx overrides target result) :
    Speculates b' ctx overrides target result := by
  have hbuild {c : ProjectId} (hc : ctx.graph.Avoids bad c) :
      (ctx.override overrides).uncached b' c = (ctx.override overrides).uncached b c :=
    Context.uncached_eq_of_avoids hagrees hc
  have hrebuilt (hreached : target ∈ reached ctx overrides) :
      ∀ c ∈ Plan.rebuilt ctx overrides target, ctx.graph.Avoids bad c := by
    rwa [deciding, if_pos hreached] at h
  have htarget := h target self_mem_deciding
  cases hspeculates with
  | missing hproject => exact .missing hproject
  | unreached hreached hallows =>
      exact .unreached hreached (Context.uncached_eq_of_avoids hagrees htarget ▸ hallows)
  | rebuilt hreached hstop ha =>
      refine .rebuilt hreached ?_ ((hbuild htarget).trans ha)
      rw [stop?_eq_of_avoids hagrees (hrebuilt hreached), hstop]
  | @stopped c e hreached hstop hallows hcalm =>
      have hc : (ctx.override overrides).graph.Avoids bad c :=
        hrebuilt hreached c (exists_error_of_stop? hstop).left
      refine .stopped hreached ?_ (hbuild hc ▸ hallows) ?_
      · rw [stop?_eq_of_avoids hagrees (hrebuilt hreached), hstop]
      · rwa [Context.panics_iff_of_avoids hagrees hc]

/-- A speculative build that needs something bad comes to a complaint of the backend. -/
theorem Speculates.backend_of_not_avoids (hctx : ctx.Complete) (htarget : target ∈ ctx.graph.ids)
    (hpanics : b.PanicsOn bad) (h : ¬ ∀ c ∈ deciding ctx overrides target, ctx.graph.Avoids bad c)
    {result : Except Error (Artifact π)} (hspeculates : Speculates b ctx overrides target result) :
    ∃ cause, result = .error (.backend cause) := by
  have hfails : ¬ ∃ a, result = .ok a := by
    rw [hspeculates.isOk_iff hctx htarget]
    intro hbuilds
    refine h fun c hc => ?_
    by_contra hneeds
    rcases hbuilds c hc with ⟨a, ha⟩
    have hneeds' : ¬ (ctx.override overrides).graph.Avoids bad c := hneeds
    rcases Context.error_of_not_avoids hpanics hneeds' with ⟨es, hes⟩
    rw [hes] at ha
    cases ha
  have hover := hctx.override overrides
  cases hspeculates with
  | missing hproject =>
      rcases hctx target htarget with ⟨p, hp⟩
      rw [hproject] at hp
      cases hp
  | unreached _ hallows =>
      cases result with
      | ok a => exact absurd ⟨a, rfl⟩ hfails
      | error e =>
          rcases hallows with ⟨es, hes, he⟩
          rcases Context.backend_of_uncached hctx htarget hes he with ⟨cause, rfl⟩
          exact ⟨cause, rfl⟩
  | rebuilt _ _ _ => exact absurd ⟨_, rfl⟩ hfails
  | stopped _ hstop hallows _ =>
      rcases hallows with ⟨es, hes, he⟩
      have hmem := (mem_rebuilt.mp (exists_error_of_stop? hstop).left).left
      rcases Context.backend_of_uncached hover hmem hes he with ⟨cause, rfl⟩
      exact ⟨cause, rfl⟩

/-- The backend panics in a speculative build exactly if the first project that comes to
nothing panics while all that it is compiled against is there. -/
theorem crashes_iff (hctx : ctx.Complete) (hpanics : b.PanicsOn bad) :
    Crashes b ctx overrides target ↔
      (∃ p, ctx.workspace.project? target = some p) ∧ target ∈ reached ctx overrides ∧
        ∃ c ∈ bad, stop? b ctx overrides target = some c ∧
          ∀ d ∈ ctx.graph.effectiveDependencies c,
            ∃ a, (ctx.override overrides).uncached b d = .ok a := by
  constructor
  · rintro ⟨hknown, hreached, c, hstop, p, references, hp, hall, hcompile⟩
    refine ⟨hknown, hreached, c, ?_, hstop, Context.exists_uncachedAll_iff.mp ⟨_, hall⟩⟩
    rw [← (Context.project?_mem hp).right]
    exact (hpanics _).mp hcompile
  · rintro ⟨hknown, hreached, c, hc, hstop, hbuilds⟩
    have hmem := (mem_rebuilt.mp (exists_error_of_stop? hstop).left).left
    rcases hctx.override overrides c hmem with ⟨p, hp⟩
    rcases Context.exists_uncachedAll_iff.mpr hbuilds with ⟨references, hall⟩
    refine ⟨hknown, hreached, c, hstop, p, references, hp, hall, (hpanics _).mpr ?_⟩
    rw [CompileUnit.ofProject, (Context.project?_mem hp).right]
    exact hc

end Cache.Plan

namespace Engine

variable {sv : Services σ π} {streams : Set (List UInt8)} {id : SessionId} {e : Engine σ π}
  {s : Session}

/-!
# Diagnostics
-/

/-- A project that needs nothing bad gets what it would get if the bad were good, and the
others get a complaint of the backend. -/
structure Contained (b : Backend π) (bad : Set ProjectId) (s : Session) (analyzed : Bool)
    (p : ProjectId) (result : Except Error (Held (List Diagnostic))) : Prop where
  spared : s.graph.Avoids bad p → ∀ b', b.AgreesBeyond bad b' →
    (uncachedListing s.context b' p s.analyzers analyzed).Allows (result.map Held.value)
  struck : ¬ s.graph.Avoids bad p → ∃ cause, result = .error (.backend cause)

theorem Hosts.contained (h : Hosts sv streams id e s) (hpanics : sv.backend.PanicsOn bad)
    {p : ProjectId} (hp : p ∈ s.graph.ids) {analyzed : Bool}
    {result : Except Error (Held (List Diagnostic))}
    (hallows : (uncachedListing s.context sv.backend p s.analyzers analyzed).Allows
      (result.map Held.value)) :
    Contained sv.backend bad s analyzed p result where
  spared havoids b' hagrees := by
    rwa [Context.uncachedListing_eq_of_avoids hagrees havoids]
  struck hneeds := by
    cases result with
    | ok held =>
        have hbeyond : ¬ s.context.graph.Avoids bad p := hneeds
        rcases Context.error_of_not_avoids hpanics hbeyond with ⟨es, hes⟩
        simp only [uncachedListing, hes] at hallows
        cases hallows
    | error error =>
        rcases backend_of_uncachedListing h.complete hp hallows with ⟨cause, rfl⟩
        exact ⟨cause, rfl⟩

theorem Ready.returns_entries (h : Ready sv streams id e s) (analyzed : Bool)
    (ps : List ProjectId) :
    ∃ entries e', (ps.mapM fun p => do
        pure (entryOf p (← projectDiagnostics sv s analyzed p))).Returns e entries e' ∧
      List.Forall₂ (fun p entry => ∃ result, entry = entryOf p result ∧
        (uncachedListing s.context sv.backend p s.analyzers analyzed).Allows
          (result.map Held.value)) ps entries := by
  induction ps generalizing e with
  | nil => exact ⟨[], e, Operation.returns_pure_iff.mpr ⟨rfl, rfl⟩, .nil⟩
  | cons p ps ih =>
      rcases Schedule.drive_good h.free
          (Plan.ensures_diagnostics h.free h.named analyzed (h.covered p)) h.schedule with
        ⟨result, schedule, hdrive, hallows, hfollows⟩
      rcases ih (h.withSchedule hfollows.good) with ⟨entries, e', hreturns, hentries⟩
      refine ⟨entryOf p result :: entries, e', ?_, .cons ⟨result, rfl, hallows⟩ hentries⟩
      rw [List.mapM_cons]
      refine Operation.returns_bind_iff.mpr
        ⟨entryOf p result, { e with schedule := schedule }, ?_, ?_⟩
      · exact Operation.returns_bind_iff.mpr
          ⟨result, _, Operation.returns_perform hdrive, Operation.returns_pure_iff.mpr ⟨rfl, rfl⟩⟩
      · exact Operation.returns_bind_iff.mpr
          ⟨entries, e', hreturns, Operation.returns_pure_iff.mpr ⟨rfl, rfl⟩⟩

/-- All projects are reported, whatever fails. -/
theorem Ready.returns_report (h : Ready sv streams id e s) (analyze? : Option Bool) :
    ∃ report e', (diagnostics sv id none analyze?).Returns e report e' ∧
      List.Forall₂ (fun p entry => ∃ result, entry = entryOf p result ∧
        (uncachedListing s.context sv.backend p s.analyzers
          (analyze?.getD e.config.edits.includeAnalyzers)).Allows (result.map Held.value))
        s.graph.topologicalOrder report.projects := by
  rcases h.use.returns_entries (analyze?.getD e.config.edits.includeAnalyzers)
      s.graph.topologicalOrder with
    ⟨entries, e', hreturns, hentries⟩
  refine ⟨⟨entries⟩, e', ?_, hentries⟩
  unfold diagnostics
  refine Operation.returns_bind_iff.mpr
    ⟨_, _, Operation.returns_use_iff.mpr ⟨s, h.session, rfl, rfl⟩, ?_⟩
  refine Operation.returns_bind_iff.mpr
    ⟨_, _, Operation.returns_get_iff.mpr ⟨rfl, rfl⟩, ?_⟩
  exact Operation.returns_bind_iff.mpr
    ⟨entries, e', hreturns, Operation.returns_pure_iff.mpr ⟨rfl, rfl⟩⟩

/-!
# Batches
-/

/-- A project has the impact that it would have if the bad were good, as long as nothing
bad is needed for its rebuild. All others have a complaint of the backend. -/
structure ContainedImpact (b : Backend π) (bad : Set ProjectId) (s : Session)
    (analyzed : Bool) (p : ProjectId) (i : Impact) : Prop where
  spared : (∀ c ∈ Plan.deciding s.context s.overrides p, s.graph.Avoids bad c) →
    ∀ b', b.AgreesBeyond bad b' → Judges b' s s.overrides analyzed p i
  struck : ¬ (∀ c ∈ Plan.deciding s.context s.overrides p, s.graph.Avoids bad c) →
    ∃ cause, i = ⟨p, .empty, false, some (.backend cause)⟩

theorem Hosts.containedImpact (h : Hosts sv streams id e s) (hpanics : sv.backend.PanicsOn bad)
    {p : ProjectId} (hp : p ∈ s.graph.ids) {analyzed : Bool} {i : Impact}
    (hjudges : Judges sv.backend s s.overrides analyzed p i) :
    ContainedImpact sv.backend bad s analyzed p i := by
  cases hjudges with
  | @mk before built hbefore hbuilt =>
      constructor
      · intro havoids b' hagrees
        have hcollect : (built.bind fun a => Plan.collect sv.backend a s.analyzers analyzed) =
            built.bind fun a => Plan.collect b' a s.analyzers analyzed := by
          simp only [hagrees.collect_eq]
        rw [hcollect]
        refine .mk ?_ (hbuilt.of_avoids hagrees havoids)
        rwa [Context.uncachedListing_eq_of_avoids hagrees (havoids p Plan.self_mem_deciding)]
      · intro hneeds
        rcases hbuilt.backend_of_not_avoids h.complete hp hpanics hneeds with ⟨cause, rfl⟩
        cases before with
        | ok held => exact ⟨cause, rfl⟩
        | error error =>
            rcases backend_of_uncachedListing h.complete hp hbefore with ⟨cause, rfl⟩
            exact ⟨cause, rfl⟩

/-- The backend panics while the projects that a batch lists are rebuilt. -/
def BatchCrashes (sv : Services σ π) (e : Engine σ π) (s : Session)
    (edits : List DocumentEdit) : Prop :=
  ∃ p ∈ e.listedBy s edits,
    Plan.Crashes sv.backend s.context (e.stagedIn s edits).2.overrides p

theorem Ready.completes_applyEdits (h : Ready sv streams id e s) (edits : List DocumentEdit) :
    (applyEdits sv id edits).Completes e ↔ ¬ BatchCrashes sv e s edits := by
  by_cases hedits : edits = []
  · subst hedits
    refine ⟨fun _ => ?_, fun _ halt e' hrun => ?_⟩
    · rintro ⟨p, hp, _⟩
      rcases mem_affected.mp hp with ⟨_, q, hq, _⟩
      cases hq
    · cases hrun
      exact ⟨_, rfl⟩
  · rcases h.run_applyEdits hedits with ⟨e', _, _, ⟨found, hreturns, hjudges⟩ | ⟨hcrashes, hrun⟩⟩
    · refine ⟨fun _ => ?_, fun _ halt e'' hrun => ?_⟩
      · rintro ⟨p, hp, hcrashes⟩
        rcases exists_of_forall₂ hjudges hp with ⟨i, _, hi⟩
        rw [← (h.staged_stagedIn edits).context] at hcrashes
        exact hi.not_crashes hcrashes
      · cases hreturns.symm.trans hrun
    · refine ⟨fun hcompletes => ?_, fun hcalm => absurd hcrashes hcalm⟩
      rcases hcompletes _ _ hrun with ⟨error, herror⟩
      cases herror

theorem Ready.completes_applyEdit (h : Ready sv streams id e s) (edit : DocumentEdit) :
    (applyEdit sv id edit).Completes e ↔ ¬ BatchCrashes sv e s [edit] := by
  rw [← h.completes_applyEdits]
  refine Operation.completes_bind_iff fun outcome e' halt e'' hrun => ?_
  split at hrun
  · cases hrun
    exact ⟨_, rfl⟩
  · cases hrun

theorem Ready.contained_of_returns (h : Ready sv streams id e s)
    (hpanics : sv.backend.PanicsOn bad) {edits : List DocumentEdit} {outcome : EditOutcome}
    {e' : Engine σ π} (hreturns : (applyEdits sv id edits).Returns e outcome e') :
    List.Forall₂
      (ContainedImpact sv.backend bad (e.stagedIn s edits).2 e.config.edits.includeAnalyzers)
      (e.listedBy s edits) outcome.impacts := by
  by_cases hedits : edits = []
  · subst hedits
    cases hreturns
  · rcases h.run_applyEdits hedits with
      ⟨e₁, hready, _, ⟨found, hreturns', hjudges⟩ | ⟨_, hrun⟩⟩
    · cases hreturns.symm.trans hreturns'
      have hids : ∀ p ∈ e.listedBy s edits, p ∈ (e.stagedIn s edits).2.graph.ids := by
        rw [h.graph_stagedIn]
        exact fun p hp => (mem_affected.mp hp).left
      refine ((List.forall₂_and_left _ _).mpr ⟨hids, hjudges⟩).imp ?_
      exact fun p i ⟨hp, hi⟩ => hready.containedImpact hpanics hp hi
    · cases hreturns.symm.trans hrun

/-- Panics of compiles reach the projects that need them and no others, and operations
complete in spite of them, with two exceptions: a batch does not complete if the backend
panics while a listed project is rebuilt, and a project whose rebuild needs one that
panics has its complaint even if the project itself does not need it. -/
theorem panics_contained (hbegins : Begins sv streams id e s)
    (hpanics : sv.backend.PanicsOn bad) :
    (∀ p ∈ s.graph.ids, ∀ analyze?, ∃ result e',
      (diagnostics sv id (some p) analyze?).run e = (answerOf p result, e') ∧
      Contained sv.backend bad s (analyze?.getD e.config.edits.includeAnalyzers) p result) ∧
    (∀ analyze?, ∃ report e', (diagnostics sv id none analyze?).Returns e report e' ∧
      List.Forall₂ (fun p entry => ∃ result, entry = entryOf p result ∧
          Contained sv.backend bad s (analyze?.getD e.config.edits.includeAnalyzers) p result)
        s.graph.topologicalOrder report.projects) ∧
    (∀ edits, ((applyEdits sv id edits).Completes e ↔ ¬ BatchCrashes sv e s edits) ∧
      ∀ outcome e', (applyEdits sv id edits).Returns e outcome e' →
        List.Forall₂
          (ContainedImpact sv.backend bad (e.stagedIn s edits).2 e.config.edits.includeAnalyzers)
          (e.listedBy s edits) outcome.impacts) ∧
    (∀ edit, (applyEdit sv id edit).Completes e ↔ ¬ BatchCrashes sv e s [edit]) ∧
    ∀ overrides, ∀ p ∈ s.graph.ids, Plan.Crashes sv.backend s.context overrides p ↔
      p ∈ Plan.reached s.context overrides ∧
        ∃ c ∈ bad, Plan.stop? sv.backend s.context overrides p = some c ∧
          ∀ d ∈ s.graph.effectiveDependencies c,
            ∃ a, (s.context.override overrides).uncached sv.backend d = .ok a := by
  have hready := hbegins.ready
  refine ⟨?_, ?_, ?_, hready.completes_applyEdit, ?_⟩
  · intro p hp analyze?
    rcases hready.run_diagnostics p analyze? with ⟨result, e', hallows, hrun⟩
    exact ⟨result, e', hrun, hready.contained hpanics hp hallows⟩
  · intro analyze?
    rcases hready.returns_report analyze? with ⟨report, e', hreturns, hentries⟩
    refine ⟨report, e', hreturns, ?_⟩
    have hids : ∀ p ∈ s.graph.topologicalOrder, p ∈ s.graph.ids :=
      fun p hp => Graph.mem_topologicalOrder.mp hp
    refine ((List.forall₂_and_left _ _).mpr ⟨hids, hentries⟩).imp ?_
    rintro p entry ⟨hp, result, rfl, hallows⟩
    exact ⟨result, rfl, hready.contained hpanics hp hallows⟩
  · intro edits
    exact ⟨hready.completes_applyEdits edits,
      fun outcome e' hreturns => hready.contained_of_returns hpanics hreturns⟩
  · intro overrides p hp
    rw [Plan.crashes_iff hready.complete hpanics]
    exact ⟨fun h => h.right, fun h => ⟨hready.complete p hp, h⟩⟩

/-!
# Two files, and a cycle
-/

/-- A backend that panics on one project only. -/
def panicsAt (id : ProjectId) : Backend (List Document) :=
  { mirror with compile := fun u => if u.project = id then .panicked else mirror.compile u }

theorem panicsOn_panicsAt (id : ProjectId) : (panicsAt id).PanicsOn {id} := by
  intro u
  by_cases hu : u.project = id
  · exact ⟨fun _ => hu, fun _ => if_pos hu⟩
  · have hcompile : (panicsAt id).compile u = mirror.compile u := if_neg hu
    rw [hcompile]
    exact ⟨nofun, fun h => absurd h hu⟩

def shaky (id : ProjectId) : Services Unit (List Document) :=
  { calm with backend := panicsAt id }

/-- Nothing crashes if what panics is not rebuilt. -/
theorem not_batchCrashes {sv : Services σ π} (hpanics : sv.backend.PanicsOn bad)
    {edits : List DocumentEdit}
    (h : ∀ p ∈ e.listedBy s edits,
      ∀ c ∈ Plan.rebuilt s.context (e.stagedIn s edits).2.overrides p, c ∉ bad) :
    ¬ BatchCrashes sv e s edits := by
  rintro ⟨p, hp, _, _, c, hstop, project, references, hproject, _, hcompile⟩
  refine h p hp c (Plan.exists_error_of_stop? hstop).left ?_
  rw [← (Context.project?_mem hproject).right]
  exact (hpanics _).mp hcompile

/-- For one, of two projects with a file each, one panics and gets a complaint, and the
file of the other can be edited. -/
theorem panics_contained_apart :
    (∃ cause e', (diagnostics (shaky ⟨"b"⟩) ⟨"s"⟩ (some ⟨"b"⟩) none).run (singlesEngine apart) =
      (.error (.failed (.backend cause)), e')) ∧
    (applyEdits (shaky ⟨"b"⟩) ⟨"s"⟩ [typing]).Completes (singlesEngine apart) := by
  have hbegins : Begins (shaky ⟨"b"⟩) {stream | stream ∈ singlesStreams} ⟨"s"⟩
      (singlesEngine apart) (singlesSession apart) :=
    begins_new collisionFree_singles List.mem_cons_self
      (covered_singles _ (by decide) (by decide +kernel))
  have hpanics : (shaky ⟨"b"⟩).backend.PanicsOn {⟨"b"⟩} := panicsOn_panicsAt _
  rcases panics_contained hbegins hpanics with ⟨hone, _, hbatch, _⟩
  constructor
  · rcases hone ⟨"b"⟩ (by decide +kernel) none with ⟨result, e', hrun, hcontained⟩
    have hneeds : ¬ (singlesSession apart).graph.Avoids {⟨"b"⟩} ⟨"b"⟩ :=
      fun havoids => havoids ⟨"b"⟩ .refl rfl
    rcases hcontained.struck hneeds with ⟨cause, rfl⟩
    exact ⟨cause, e', hrun⟩
  · have hlisted : ∀ p ∈ (singlesEngine apart).listedBy (singlesSession apart) [typing],
        ⟨"b"⟩ ∉ Plan.rebuilt (singlesSession apart).context (typed apart).overrides p := by
      decide +kernel
    refine (hbatch [typing]).left.mpr (not_batchCrashes hpanics fun p hp c hc hbad => ?_)
    cases hbad
    exact hlisted p hp hc

/-- The first of two projects that refer to each other. -/
def headProject : Project := ⟨⟨"p"⟩, "", [⟨⟨"/s"⟩, ""⟩], [⟨"c"⟩], [], ⟨[]⟩⟩

/-- The second, which needs a third. -/
def tailProject : Project := ⟨⟨"c"⟩, "", [], [⟨"p"⟩, ⟨"r"⟩], [], ⟨[]⟩⟩

def strayProject : Project := ⟨⟨"r"⟩, "", [⟨⟨"/r"⟩, ""⟩], [], [], ⟨[]⟩⟩

def knot : Workspace := ⟨⟨"/"⟩, [headProject, tailProject, strayProject]⟩

def knotSession : Session :=
  .start ⟨"s"⟩ ⟨"/"⟩ .workspace (.ofNames []) knot 0

def knotEngine : Engine Unit (List Document) :=
  (Engine.new .default () true).setSession knotSession

def knotStreams : List (List UInt8) :=
  [Stream.ofNames [], Stream.ofProject headProject "" [], Stream.ofProject strayProject "" [],
    Stream.ofProject tailProject "" [(⟨"r"⟩, strayProject.fingerprint "" [])]]

theorem nodup_knotStreams :
    (knotStreams.map fun stream => (Fingerprint.ofStream stream).bytes).Nodup := by
  unfold knotStreams Project.fingerprint
  rw [Fingerprint.ofStream_eq]
  decide +kernel

theorem effectiveDependencies_knot :
    (Graph.build knot).effectiveDependencies ⟨"p"⟩ = [] ∧
      (Graph.build knot).effectiveDependencies ⟨"c"⟩ = [⟨"r"⟩] ∧
      (Graph.build knot).effectiveDependencies ⟨"r"⟩ = [] := by
  decide +kernel

theorem hashes_knot {id : ProjectId} {stream : List UInt8}
    (h : (Context.ofWorkspace ⟨"s"⟩ knot).Hashes "" id stream) : stream ∈ knotStreams := by
  have hgraph : (Context.ofWorkspace ⟨"s"⟩ knot).graph = Graph.build knot := rfl
  rcases effectiveDependencies_knot with ⟨hhead, htail, hstray⟩
  induction h with
  | dependency _ _ ih => exact ih
  | @own id p found hp hfound =>
      rcases Context.project?_mem hp with ⟨hmem, rfl⟩
      rw [hgraph] at hfound
      have hcases : p = headProject ∨ p = tailProject ∨ p = strayProject := by
        simpa [Context.ofWorkspace, knot] using hmem
      rcases hcases with rfl | rfl | rfl
      · rw [show headProject.id = ⟨"p"⟩ from rfl, hhead] at hfound
        cases hfound
        exact List.mem_cons_of_mem _ List.mem_cons_self
      · rw [show tailProject.id = ⟨"c"⟩ from rfl, htail] at hfound
        rcases Context.prints_eq_ok_iff.mp hfound with ⟨hids, hrows⟩
        rcases List.map_eq_singleton_iff.mp hids with ⟨⟨c, f⟩, rfl, rfl⟩
        have hprint := hrows _ List.mem_cons_self
        rw [Context.print_eq, hgraph, hstray] at hprint
        have hf : strayProject.fingerprint "" [] = f := Except.ok.inj hprint
        rw [← hf]
        exact List.mem_of_mem_getLast? rfl
      · rw [show strayProject.id = ⟨"r"⟩ from rfl, hstray] at hfound
        cases hfound
        exact List.mem_cons_of_mem _ (List.mem_cons_of_mem _ List.mem_cons_self)

theorem fits_knot : (Context.ofWorkspace ⟨"s"⟩ knot).Fits where
  projects := by
    have hall : ∀ p ∈ knot.projects, TextFits p.id.text ∧ TextFits p.name ∧
        ListFits (fun row => TextFits row.1 ∧ TextFits row.2) p.options.rows ∧
        ListFits (fun d => TextFits d.path.text ∧ TextFits d.content) p.documents ∧
        ListFits (fun r => TextFits r.text) p.references ∧ ListFits TextFits p.metadata := by
      unfold ListFits TextFits
      decide
    intro p hp
    rcases hall p hp with ⟨hid, hname, hoptions, hdocuments, hreferences, hmetadata⟩
    exact ⟨hid, hname, hoptions, hdocuments, hreferences, hmetadata⟩
  nodes := by decide +kernel

theorem begins_knot (id : ProjectId) :
    Begins (shaky id) {stream | stream ∈ knotStreams} ⟨"s"⟩ knotEngine knotSession := by
  refine begins_new ⟨?_, ?_⟩ List.mem_cons_self fun other => ⟨fits_knot, fun _ => hashes_knot⟩
  · intro stream hs other ho h
    exact List.inj_on_of_nodup_map nodup_knotStreams hs ho (congrArg Fingerprint.bytes h)
  · change TextFits ""
    unfold TextFits
    decide

/-- Puts an `x` in front of the file of the third project. -/
def typingStray : DocumentEdit :=
  ⟨⟨"/r"⟩, [⟨⟨0, 0⟩, "x"⟩]⟩

/-- The third project panics. The first does not need it, but gets its complaint when its
file is edited; and the batch that edits the file of the third panics itself. -/
theorem panics_escape :
    Begins (shaky ⟨"r"⟩) {stream | stream ∈ knotStreams} ⟨"s"⟩ knotEngine knotSession ∧
      (shaky ⟨"r"⟩).backend.PanicsOn {⟨"r"⟩} ∧
      knotSession.graph.Avoids {⟨"r"⟩} ⟨"p"⟩ ∧
      (∃ outcome e' cause,
        (applyEdits (shaky ⟨"r"⟩) ⟨"s"⟩ [typing]).Returns knotEngine outcome e' ∧
        ⟨⟨"p"⟩, .empty, false, some (.backend cause)⟩ ∈ outcome.impacts) ∧
      ∃ e', (applyEdits (shaky ⟨"r"⟩) ⟨"s"⟩ [typingStray]).run knotEngine =
        (.error .panicked, e') := by
  have hbegins := begins_knot ⟨"r"⟩
  have hready := hbegins.ready
  have hpanics : (shaky ⟨"r"⟩).backend.PanicsOn {⟨"r"⟩} := panicsOn_panicsAt _
  rcases effectiveDependencies_knot with ⟨hhead, htail, hstray⟩
  refine ⟨hbegins, hpanics, ?_, ?_, ?_⟩
  · intro c hc
    rcases hc.cases_head with rfl | ⟨d, hd, _⟩
    · decide
    · have hd : d ∈ (Graph.build knot).effectiveDependencies ⟨"p"⟩ := hd
      rw [hhead] at hd
      cases hd
  · have hspared : ∀ p ∈ knotEngine.listedBy knotSession [typing],
        ⟨"r"⟩ ∉ Plan.rebuilt knotSession.context
          (knotEngine.stagedIn knotSession [typing]).2.overrides p := by
      decide +kernel
    have hcalm : ¬ BatchCrashes (shaky ⟨"r"⟩) knotEngine knotSession [typing] := by
      refine not_batchCrashes hpanics fun p hp c hc hbad => ?_
      cases hbad
      exact hspared p hp hc
    rcases hready.run_applyEdits (List.cons_ne_nil typing []) with
      ⟨e', _, _, ⟨found, hreturns, _⟩ | ⟨hcrashes, _⟩⟩
    · have hlisted : ⟨"p"⟩ ∈ knotEngine.listedBy knotSession [typing] := by decide +kernel
      have hdeciding : ⟨"c"⟩ ∈ Plan.deciding (knotEngine.stagedIn knotSession [typing]).2.context
          (knotEngine.stagedIn knotSession [typing]).2.overrides ⟨"p"⟩ := by decide +kernel
      have hneeds : ¬ ∀ c ∈ Plan.deciding (knotEngine.stagedIn knotSession [typing]).2.context
          (knotEngine.stagedIn knotSession [typing]).2.overrides ⟨"p"⟩,
          (knotEngine.stagedIn knotSession [typing]).2.graph.Avoids {⟨"r"⟩} c := by
        intro havoids
        have hneeded : ⟨"r"⟩ ∈ (Graph.build knot).effectiveDependencies ⟨"c"⟩ := by
          rw [htail]
          exact List.mem_singleton_self _
        rw [hready.graph_stagedIn] at havoids
        exact havoids ⟨"c"⟩ hdeciding ⟨"r"⟩ (.single hneeded) rfl
      rcases exists_of_forall₂ (hready.contained_of_returns hpanics hreturns) hlisted with
        ⟨i, hi, hcontained⟩
      rcases hcontained.struck hneeds with ⟨cause, rfl⟩
      exact ⟨_, e', cause, hreturns, hi⟩
    · exact absurd hcrashes hcalm
  · have hlisted : ⟨"r"⟩ ∈ knotEngine.listedBy knotSession [typingStray] := by decide +kernel
    have hcrashes : BatchCrashes (shaky ⟨"r"⟩) knotEngine knotSession [typingStray] := by
      refine ⟨⟨"r"⟩, hlisted, (Plan.crashes_iff hready.complete hpanics).mpr ?_⟩
      have hrebuilt : Plan.rebuilt knotSession.context
          (knotEngine.stagedIn knotSession [typingStray]).2.overrides ⟨"r"⟩ =
            [] ++ ⟨"r"⟩ :: [] := by decide +kernel
      have hneeds : ¬ (knotSession.context.override
          (knotEngine.stagedIn knotSession [typingStray]).2.overrides).graph.Avoids
            {⟨"r"⟩} ⟨"r"⟩ := fun havoids => havoids ⟨"r"⟩ .refl rfl
      rcases Context.error_of_not_avoids hpanics hneeds with ⟨es, hes⟩
      refine ⟨⟨strayProject, by decide +kernel⟩, by decide +kernel, ⟨"r"⟩, rfl,
        Plan.stop?_of_split hrebuilt nofun hes, fun d hd => ?_⟩
      have hd : d ∈ (Graph.build knot).effectiveDependencies ⟨"r"⟩ := hd
      rw [hstray] at hd
      cases hd
    rcases hready.run_applyEdits (List.cons_ne_nil typingStray []) with
      ⟨e', _, _, ⟨found, hreturns, _⟩ | ⟨_, hrun⟩⟩
    · refine absurd hcrashes ((hready.completes_applyEdits _).mp fun halt e'' hrun => ?_)
      cases hreturns.symm.trans hrun
    · exact ⟨e', hrun⟩

end Engine
end Ripple
