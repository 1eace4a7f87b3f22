import Ripple.Proofs.Cache.Service
import Ripple.Proofs.Engine.Operations
import Ripple.Proofs.Session.Reachable

/-!
# Engines at work on a session

While a session is at work its engine stays ready: its cache is good, and what is
hashed for the session is among streams that do not collide. If the backend has no
faults then diagnostics, with or without overrides, come out as those of uncached
builds.
-/

namespace Ripple

open Cache

variable {σ π : Type}

/-- Every compile and every run of the analyzers succeeds. -/
structure Backend.Faultless (b : Backend π) : Prop where
  compiles : ∀ u, ∃ a, b.compile u = .compiled a
  analyzes : ∀ a s, ∃ ds, b.analyze a s = .ok ds

namespace Engine

/-- The session is there, and all that is in the cache is right. -/
structure Hosts (sv : Services σ π) (streams : Set (List UInt8)) (id : SessionId)
    (e : Engine σ π) (s : Session) : Prop where
  schedule : e.schedule.Good sv.backend streams
  session : e.sessions.get? id = some s
  keyed : s.id = id
  formed : s.Formed

/-- What is hashed for the session does not collide with what is in the cache. -/
structure Ready (sv : Services σ π) (streams : Set (List UInt8)) (id : SessionId)
    (e : Engine σ π) (s : Session) : Prop extends Hosts sv streams id e s where
  free : CollisionFree sv.backend.environment streams
  named : Named streams s.analyzers
  covered : ∀ other, s.context.Covered sv.backend.environment streams other

/-- The same, of an engine whose cache has come about in any way and whose session
has been through anything. -/
structure Begins (sv : Services σ π) (streams : Set (List UInt8)) (id : SessionId)
    (e : Engine σ π) (s : Session) : Prop where
  free : CollisionFree sv.backend.environment streams
  cache : ∃ settings w, World.Reachable sv.backend settings w ∧ w.Known sv.backend streams ∧
    e.schedule = w.schedule
  session : e.sessions.get? id = some s
  keyed : s.id = id
  reachable : s.Reachable
  named : Named streams s.analyzers
  covered : ∀ other, s.context.Covered sv.backend.environment streams other

variable {sv : Services σ π} {streams : Set (List UInt8)} {id : SessionId} {e : Engine σ π}
  {s : Session}

theorem Begins.ready (h : Begins sv streams id e s) : Ready sv streams id e s := by
  rcases h.cache with ⟨settings, w, hreach, hknown, hschedule⟩
  have hsound := World.sound_of_reachable h.free hreach hknown
  exact ⟨⟨hschedule ▸ hsound.schedule, h.session, h.keyed, h.reachable.formed⟩, h.free, h.named,
    h.covered⟩

theorem Hosts.setSession (h : Hosts sv streams id e s) {s' : Session} (hformed : s'.Formed)
    (hkeyed : s'.id = s.id) : Hosts sv streams id (e.setSession s') s' where
  schedule := h.schedule
  session := by
    change (e.sessions.insert s'.id s').get? id = some s'
    rw [Table.get?_insert, if_pos (hkeyed.trans h.keyed).symm]
  keyed := hkeyed.trans h.keyed
  formed := hformed

theorem Hosts.updateTables (h : Hosts sv streams id e s) {f : Tables π → Tables π}
    (hwithin : e.schedule.tables.Within (f e.schedule.tables)) :
    Hosts sv streams id (e.updateTables f) s :=
  ⟨(Schedule.Follows.updateTables h.schedule hwithin).good, h.session, h.keyed, h.formed⟩

theorem Ready.withSchedule (h : Ready sv streams id e s) {schedule : Schedule π}
    (hgood : schedule.Good sv.backend streams) :
    Ready sv streams id { e with schedule := schedule } s :=
  ⟨⟨hgood, h.session, h.keyed, h.formed⟩, h.free, h.named, h.covered⟩

/-- The session may change as long as what is hashed for it is known. -/
theorem Ready.setSession (h : Ready sv streams id e s) {s' : Session} (hformed : s'.Formed)
    (hkeyed : s'.id = s.id) (hanalyzers : s'.analyzers = s.analyzers)
    (hcovered : ∀ other, s'.context.Covered sv.backend.environment streams other) :
    Ready sv streams id (e.setSession s') s' :=
  ⟨h.toHosts.setSession hformed hkeyed, h.free, hanalyzers ▸ h.named, hcovered⟩

theorem Hosts.use (h : Hosts sv streams id e s) :
    Hosts sv streams id (e.setSession { s with lastAccess := e.clock })
      { s with lastAccess := e.clock } :=
  h.setSession (h.formed.step (.use _)) rfl

theorem Ready.use (h : Ready sv streams id e s) :
    Ready sv streams id (e.setSession { s with lastAccess := e.clock })
      { s with lastAccess := e.clock } :=
  h.setSession (h.formed.step (.use _)) rfl rfl h.covered

theorem Hosts.complete (h : Hosts sv streams id e s) : s.context.Complete := by
  have hcomplete := Context.complete_ofWorkspace s.id s.workspace
  rw [Context.ofWorkspace, ← h.formed.graph] at hcomplete
  exact hcomplete

/-!
# Diagnostics
-/

theorem collect_isOk {b : Backend π} (hfaultless : b.Faultless) (a : Artifact π)
    (set : AnalyzerSet) (analyzed : Bool) : ∃ ds, Plan.collect b a set analyzed = .ok ds := by
  unfold Plan.collect
  split
  · rcases hfaultless.analyzes a set with ⟨ds, hds⟩
    rw [hds]
    exact ⟨_, rfl⟩
  · exact ⟨_, rfl⟩

theorem uncachedListing_isOk {b : Backend π} (hfaultless : b.Faultless) {ctx : Context}
    (hcomplete : ctx.Complete) {p : ProjectId} (hp : p ∈ ctx.graph.ids) (set : AnalyzerSet)
    (analyzed : Bool) : ∃ ds, uncachedListing ctx b p set analyzed = .ok ds := by
  rcases Context.uncached_isOk hcomplete hfaultless.compiles hp with ⟨a, ha⟩
  rcases collect_isOk hfaultless a set analyzed with ⟨ds, hds⟩
  exact ⟨ds, by simp only [uncachedListing, ha, hds]⟩

/-- What the speculative diagnostics of a project are found to be. -/
def Previews (sv : Services σ π) (e : Engine σ π) (s : Session) (overrides : Overrides)
    (analyzed : Bool) (p : ProjectId) (ds : List Diagnostic) : Prop :=
  ∃ schedule, e.schedule.drive sv.backend
    (Plan.speculativeDiagnostics sv.backend s.context p overrides s.analyzers analyzed).run =
      (.returned (.ok ds), schedule)

/-- If nothing fails to compile, speculative diagnostics are those of the uncached build with
the overrides. -/
theorem Ready.previews_listed (h : Ready sv streams id e s)
    (hcompiles : ∀ u, ∃ a, sv.backend.compile u = .compiled a) {p : ProjectId}
    (hp : p ∈ s.graph.ids) {overrides : Overrides} {analyzed : Bool} {ds : List Diagnostic}
    (hds : uncachedListing (s.context.override overrides) sv.backend p s.analyzers analyzed =
      .ok ds) : e.Previews sv s overrides analyzed p ds := by
  rcases Schedule.drive_good h.free
      (Plan.ensures_speculativeDiagnostics (fun hfails => hfails hcompiles) h.covered overrides p
        s.analyzers analyzed) h.schedule with ⟨result, schedule, hdrive, hresult, _⟩
  rcases hresult ⟨hcompiles, h.complete⟩ hp with ⟨a, ha, rfl⟩
  have hcollect := uncachedListing_of_ok ha s.analyzers analyzed
  rw [hds] at hcollect
  rw [hcollect.eq_of_ok] at hdrive
  exact ⟨schedule, hdrive⟩

theorem Ready.previews (h : Ready sv streams id e s) (hfaultless : sv.backend.Faultless)
    {p : ProjectId} (hp : p ∈ s.graph.ids) (overrides : Overrides) (analyzed : Bool) :
    ∃ ds, e.Previews sv s overrides analyzed p ds ∧
      uncachedListing (s.context.override overrides) sv.backend p s.analyzers analyzed =
        .ok ds := by
  rcases uncachedListing_isOk hfaultless (h.complete.override overrides) hp s.analyzers
    analyzed with ⟨ds, hds⟩
  exact ⟨ds, h.previews_listed hfaultless.compiles hp hds, hds⟩

/-- The answer for one project; its error is that of the operation. -/
def answerOf (p : ProjectId) : Except Error (Held (List Diagnostic)) → Except Halt DiagnosticsReport
  | .ok ds => .ok ⟨[⟨p, ds.value, none⟩]⟩
  | .error error => .error (.failed error)

theorem Ready.run_diagnostics (h : Ready sv streams id e s) (p : ProjectId)
    (analyze? : Option Bool) :
    ∃ (result : Except Error (Held (List Diagnostic))) (e' : Engine σ π),
      (uncachedListing s.context sv.backend p s.analyzers
        (analyze?.getD e.config.edits.includeAnalyzers)).Allows (result.map Held.value) ∧
      (diagnostics sv id (some p) analyze?).run e = (answerOf p result, e') := by
  have hused := h.use
  rcases Schedule.drive_good hused.free
      (Plan.ensures_diagnostics hused.free hused.named
        (analyze?.getD e.config.edits.includeAnalyzers) (hused.covered p)) hused.schedule with
    ⟨result, schedule, hdrive, hallows, _⟩
  refine ⟨result,
    { e.setSession { s with lastAccess := e.clock } with schedule := schedule }, hallows, ?_⟩
  have huse : (Operation.use id).Returns e { s with lastAccess := e.clock }
      (e.setSession { s with lastAccess := e.clock }) :=
    Operation.returns_use_iff.mpr ⟨s, h.session, rfl, rfl⟩
  unfold diagnostics
  refine (huse.run_bind _).trans ?_
  refine ((Operation.returns_get_iff.mpr ⟨rfl, rfl⟩).run_bind _).trans ?_
  refine ((Operation.returns_perform hdrive).run_bind _).trans ?_
  cases result <;> rfl

theorem Ready.returns_listed (h : Ready sv streams id e s) {p : ProjectId} {analyzed : Bool}
    {ds : List Diagnostic}
    (hds : uncachedListing s.context sv.backend p s.analyzers analyzed = .ok ds) :
    ∃ e', (diagnostics sv id (some p) (some analyzed)).Returns e ⟨[⟨p, ds, none⟩]⟩ e' := by
  rcases h.run_diagnostics p (some analyzed) with ⟨result, e', hallows, hrun⟩
  rw [Option.getD_some, hds] at hallows
  cases result with
  | error error => cases hallows.eq_of_ok
  | ok held =>
      cases hallows.eq_of_ok
      exact ⟨e', hrun⟩

/-- The operation returns the diagnostics of the uncached build. -/
theorem Ready.returns_diagnostics (h : Ready sv streams id e s)
    (hfaultless : sv.backend.Faultless) {p : ProjectId} (hp : p ∈ s.graph.ids)
    (analyzed : Bool) :
    ∃ ds e', (diagnostics sv id (some p) (some analyzed)).Returns e ⟨[⟨p, ds, none⟩]⟩ e' ∧
      uncachedListing s.context sv.backend p s.analyzers analyzed = .ok ds := by
  rcases uncachedListing_isOk hfaultless h.complete hp s.analyzers analyzed with ⟨ds, hds⟩
  rcases h.returns_listed hds with ⟨e', hreturns⟩
  exact ⟨ds, e', hreturns, hds⟩

end Engine
end Ripple
