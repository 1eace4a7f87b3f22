import Ripple.Proofs.Cache.Service

/-!
# Transparency

Whatever a cache has been through, its clients get what they would get without
one.
-/

namespace Ripple
namespace Cache

variable {π : Type} {b : Backend π} {streams : Set (List UInt8)}

/-!
# A single project

For an example, a project with one document, and a backend whose artifacts hold
the sources.
-/

def echo : Backend (List Document) where
  name := "echo"
  environment := ""
  compile u := .compiled ⟨u.project, u.sources⟩
  diagnostics _ := []
  analyze _ _ := .ok []

def loneProject (text : String) : Project :=
  ⟨⟨"a"⟩, "a", [⟨⟨"/a.arb"⟩, text⟩], [], [], ⟨[]⟩⟩

def loneWorkspace (text : String) : Workspace :=
  ⟨⟨"/"⟩, [loneProject text]⟩

def lone (text : String) : Context :=
  .ofWorkspace ⟨"s"⟩ (loneWorkspace text)

theorem hashes_lone {text : String} {id : ProjectId} {stream : List UInt8}
    (h : (lone text).Hashes "" id stream) :
    stream = Stream.ofProject (loneProject text) "" [] := by
  rcases Context.hashes_ofWorkspace (by simp [loneWorkspace, loneProject]) h with ⟨p, hp, hstream⟩
  rwa [List.mem_singleton.mp hp] at hstream

theorem uncached_lone (text : String) :
    (lone text).uncached echo ⟨"a"⟩ = .ok ⟨⟨"a"⟩, [⟨⟨"/a.arb"⟩, text⟩]⟩ := by
  have hnone : (lone text).graph.effectiveDependencies ⟨"a"⟩ = [] :=
    Graph.effectiveDependencies_build (by simp [loneWorkspace, loneProject]) _
  rw [Context.uncached_eq, hnone]
  rfl

theorem fits_lone {text : String} (h : TextFits text) : (lone text).Fits where
  projects := by
    intro p hp
    rw [List.mem_singleton.mp hp]
    have hshort : TextFits "a" ∧ TextFits "/a.arb" := by
      unfold TextFits
      decide
    have hempty : 0 < Number.wordLimit := by decide
    have hone : 1 < Number.wordLimit := by decide
    constructor
    · exact hshort.left
    · exact hshort.left
    · exact ⟨hempty, nofun⟩
    · refine ⟨hone, fun d hd => ?_⟩
      rw [List.mem_singleton.mp hd]
      exact ⟨hshort.right, h⟩
    · exact ⟨hempty, nofun⟩
    · exact ⟨hempty, nofun⟩
  nodes := by
    have hone : (Graph.validIds (loneWorkspace text)).length = 1 := by
      change ([⟨"a"⟩].filter ProjectId.isValid).eraseDups.length = 1
      decide
    rw [lone, Context.ofWorkspace, Graph.projectCount, ← Graph.length_ids, Graph.ids_build, hone]
    decide

theorem fits_old : TextFits "old" := by
  unfold TextFits
  decide

theorem collisionFree_lone {streams : Set (List UInt8)}
    (h : ∀ stream ∈ streams, stream = Stream.ofProject (loneProject "old") "" []) :
    CollisionFree echo.environment streams where
  injective := fun stream hs other ho _ => (h stream hs).trans (h other ho).symm
  environment := by
    unfold TextFits
    decide

/-- A client that is after one artifact. -/
def ClientStage.AsksOnce (ctx : Context) (id : ProjectId) : ClientStage π → Prop
  | .following (.request ctx' id' next) =>
      ctx' = ctx ∧ id' = id ∧ ∀ result, ∃ reply, next result = .done reply
  | .requesting r next =>
      r.context = ctx ∧ r.project = id ∧ ∀ result, ∃ reply, next result = .done reply
  | .following (.done _) | .returned _ => True
  | _ => False

theorem ClientStage.eq_of_mem_hashes {r : Request π}
    {next : Except Error (Resolved π) → Plan π (Reply π)} {row : Context × ProjectId}
    (h : row ∈ (ClientStage.requesting r next).hashes) : row = (r.context, r.project) := by
  rcases r with ⟨ctx, id, stage⟩
  cases stage with
  | fresh => exact List.mem_singleton.mp h
  | _ => cases h

theorem ClientStage.AsksOnce.moves {ctx : Context} {id : ProjectId} {s s' : Schedule π}
    {stage stage' : ClientStage π} (h : stage.AsksOnce ctx id)
    (hmove : stage.Moves b s stage' s') :
    stage'.AsksOnce ctx id ∧ ∀ row ∈ stage.hashes, row = (ctx, id) := by
  cases hmove with
  | asks => exact ⟨h, nofun⟩
  | @goesOn _ r next hactive =>
      rcases h with ⟨rfl, rfl, hnext⟩
      have hsame := r.context_step b.environment s.machine
      exact ⟨⟨hsame.left, hsame.right, hnext⟩, fun _ => eq_of_mem_hashes⟩
  | @hears _ r next result hresult =>
      rcases h with ⟨rfl, rfl, hnext⟩
      rcases hnext result with ⟨reply, hreply⟩
      rw [hreply]
      exact ⟨trivial, fun _ => eq_of_mem_hashes⟩
  | returns => exact ⟨trivial, nofun⟩
  | _ => exact h.elim

namespace World

variable {settings : CacheSettings} {w w' : World π}

/-- A world whose one client is after one artifact. -/
structure AsksOnce (ctx : Context) (id : ProjectId) (w : World π) : Prop where
  named : w.named = []
  printed : ∀ row ∈ w.printed, row = (ctx, id)
  client : ∃ stage, w.clients = [⟨.artifact ctx id, stage⟩] ∧ stage.AsksOnce ctx id

theorem AsksOnce.work {ctx : Context} {id : ProjectId} (h : w.AsksOnce ctx id)
    (hwork : w.Work b w') : w'.AsksOnce ctx id := by
  cases hwork with
  | job hjob => exact ⟨h.named, h.printed, h.client⟩
  | @client before after c stage s hclients hmove =>
      rcases h.client with ⟨stage', hlone, hasks⟩
      rw [hlone] at hclients
      rcases List.append_eq_singleton_iff.mp hclients.symm with ⟨rfl, hc⟩ | ⟨_, hc⟩
      · cases hc
        rcases hasks.moves hmove with ⟨hasks', hhashes⟩
        refine ⟨h.named, fun row hrow => ?_, stage, rfl, hasks'⟩
        rcases List.mem_append.mp hrow with hrow | hrow
        · exact hhashes row hrow
        · exact h.printed row hrow
      · cases hc

theorem AsksOnce.steps {ctx : Context} {id : ProjectId} (h : w.AsksOnce ctx id)
    (hsteps : Relation.ReflTransGen (Work b) w w') : w'.AsksOnce ctx id := by
  induction hsteps with
  | refl => exact h
  | tail _ hwork ih => exact ih.work hwork

/-- With texts overridden, a project whose compiles cannot fail is built as it is in
the workspace that has these texts, whatever is stored and whoever else is at
work. -/
theorem speculation_builds_overridden (hfree : CollisionFree b.environment streams)
    (hreach : w.Reachable b settings) (hknown : w.Known b streams)
    (hcompiles : ∀ u, ∃ a, b.compile u = .compiled a) (session : SessionId) {ws : Workspace}
    {id : ProjectId} (hid : id ∈ (Graph.build ws).ids) (overrides : Overrides)
    (hcov : ∀ other, (Context.ofWorkspace session ws).Covered b.environment streams other) :
    ∃ a, (Context.ofWorkspace session (ws.override overrides)).uncached b id = .ok a ∧
      (∃ held s, w.schedule.drive b
          (Plan.speculate (.ofWorkspace session ws) id overrides).run =
            (.returned (.ok held), s) ∧ held.value = a) ∧
      (∀ set analyzed, ∃ s, w.schedule.drive b
          (Plan.speculativeDiagnostics b (.ofWorkspace session ws) id overrides set
            analyzed).run = (.returned (Plan.collect b a set analyzed), s)) ∧
      ∀ c ∈ w.clients,
        (c.call = .speculate (.ofWorkspace session ws) id overrides →
          w.Serves b c fun reply => reply = .ok (.artifact a)) ∧
        ∀ names analyzed,
          c.call = .speculativeDiagnostics (.ofWorkspace session ws) id overrides names
              analyzed →
            w.Serves b c fun reply =>
              reply = (Plan.collect b a (.ofNames names) analyzed).map .listing := by
  have hsound := sound_of_reachable hfree hreach hknown
  have hfaultless : Plan.Faultless b (.ofWorkspace session ws) :=
    ⟨hcompiles, Context.complete_ofWorkspace session ws⟩
  have hpanics : ¬ (∀ u, ∃ a, b.compile u = .compiled a) → False := fun h => h hcompiles
  rcases Schedule.drive_good hfree
      (Plan.ensures_speculate hpanics hcov overrides id) hsound.schedule with
    ⟨result, s, hdrive, hresult, _⟩
  rcases hresult hfaultless hid with ⟨held, rfl, ha⟩
  rw [Context.override_ofWorkspace] at ha
  refine ⟨held.value, ha, ⟨held, s, hdrive, rfl⟩, ?_, ?_⟩
  · intro set analyzed
    rcases Schedule.drive_good hfree
        (Plan.ensures_speculativeDiagnostics hpanics hcov overrides id set analyzed)
        hsound.schedule with
      ⟨ds, s', hdrive', hds, _⟩
    rcases hds hfaultless hid with ⟨a, ha', rfl⟩
    rw [Context.override_ofWorkspace, ha] at ha'
    cases ha'
    exact ⟨s', hdrive'⟩
  · intro c hc
    constructor
    · intro hcall
      refine serves_of_sound hfree hsound hc ?_ ?_
      · rw [hcall]
        exact ⟨hfaultless, hid⟩
      · intro reply hallows
        rw [hcall, Call.verdict, Context.override_ofWorkspace, ha] at hallows
        exact hallows.eq_of_ok
    · intro names analyzed hcall
      refine serves_of_sound hfree hsound hc ?_ ?_
      · rw [hcall]
        exact ⟨hfaultless, hid⟩
      · intro reply hallows
        rw [hcall, Call.verdict, Context.override_ofWorkspace, uncachedListing, ha] at hallows
        cases hds : Plan.collect b held.value (.ofNames names) analyzed with
        | ok ds =>
            simp only [hds] at hallows
            exact hallows.eq_of_ok
        | error e =>
            simp only [hds] at hallows
            exact hallows.eq_of_error

/-- For one, a fresh cache builds the single project with its new text. -/
theorem speculation_lone : ∃ held s,
    (World.start .default).schedule.drive echo (Plan.speculate (lone "old") ⟨"a"⟩
      (PathMap.empty.insert ⟨"/a.arb"⟩ "new")).run = (.returned (.ok held), s) ∧
      held.value = ⟨⟨"a"⟩, [⟨⟨"/a.arb"⟩, "new"⟩]⟩ := by
  let streams : Set (List UInt8) := {Stream.ofProject (loneProject "old") "" []}
  have hreach : (World.start .default).Reachable echo .default := .refl
  have hknown : (World.start .default).Known echo streams := ⟨nofun, nofun⟩
  have hid : ⟨"a"⟩ ∈ (Graph.build (loneWorkspace "old")).ids := by decide +kernel
  rcases speculation_builds_overridden
      (collisionFree_lone fun _ => Set.mem_singleton_iff.mp) hreach hknown
      (fun u => ⟨_, rfl⟩) ⟨"s"⟩ hid (PathMap.empty.insert ⟨"/a.arb"⟩ "new")
      (fun _ => ⟨fits_lone fits_old, fun _ hs => Set.mem_singleton_iff.mpr (hashes_lone hs)⟩) with
    ⟨a, ha, ⟨held, s, hdrive, hvalue⟩, _⟩
  have hedited : (loneWorkspace "old").override (PathMap.empty.insert ⟨"/a.arb"⟩ "new") =
      loneWorkspace "new" := by decide +kernel
  rw [hedited] at ha
  have hnew := uncached_lone "new"
  rw [lone, ha] at hnew
  cases hnew
  exact ⟨held, s, hdrive, hvalue⟩

end World
end Cache
end Ripple
