import Ripple.Proofs.Cache.Transparency

/-!
# How far failures reach

A build comes to nothing if a compile fails that the project needs. A speculative
build comes to nothing if one fails that a rebuilt project needs. The two differ
where a project is rebuilt that is not needed: that takes a cycle of references.
-/

namespace Ripple

variable {π : Type} {b : Backend π}

namespace Context

variable {ctx : Context}

/-!
# Builds and what they need
-/

/-- What a project needs comes to an artifact if the project does. -/
theorem isOk_of_needs {id c : ProjectId} (h : ctx.graph.Needs id c)
    (hid : ∃ a, ctx.uncached b id = .ok a) : ∃ a, ctx.uncached b c = .ok a := by
  induction h with
  | refl => exact hid
  | @tail c d _ hd ih =>
      rcases ih with ⟨a, ha⟩
      rcases uncached_eq_ok_iff.mp ha with ⟨p, references, _, hall, _⟩
      exact exists_uncachedAll_iff.mp ⟨references, hall⟩ d hd

/-- The compile of the project itself has succeeded if there is an artifact. -/
theorem exists_compiled_of_uncached {id : ProjectId} {a : Artifact π}
    (h : ctx.uncached b id = .ok a) : ∃ u, u.project = id ∧ b.compile u = .compiled a := by
  rcases uncached_eq_ok_iff.mp h with ⟨p, references, hp, _, hcompile⟩
  exact ⟨.ofProject p references, (project?_mem hp).right, hcompile⟩

end Context

/-!
# Projects that fail
-/

/-- The compiles of these projects fail, and no others. -/
structure Backend.FailsOn (b : Backend π) (failing : Set ProjectId) : Prop where
  fails : ∀ u, u.project ∈ failing → ∃ cause, b.compile u = .failed cause
  compiles : ∀ u, u.project ∉ failing → ∃ a, b.compile u = .compiled a

/-- The project needs none of these. -/
def Graph.Avoids (g : Graph) (bad : Set ProjectId) (id : ProjectId) : Prop :=
  ∀ c, g.Needs id c → c ∉ bad

theorem Graph.Avoids.of_needs {g : Graph} {bad : Set ProjectId} {id c : ProjectId}
    (h : g.Avoids bad id) (hc : g.Needs id c) : g.Avoids bad c :=
  fun d hd => h d (hc.trans hd)

theorem Context.isOk_iff_avoids {ctx : Context} (hctx : ctx.Complete) {failing : Set ProjectId}
    (hfails : b.FailsOn failing) {id : ProjectId} (hid : id ∈ ctx.graph.ids) :
    (∃ a, ctx.uncached b id = .ok a) ↔ ctx.graph.Avoids failing id := by
  constructor
  · intro h c hc hbad
    rcases isOk_of_needs hc h with ⟨a, ha⟩
    rcases exists_compiled_of_uncached ha with ⟨u, rfl, hu⟩
    rcases hfails.fails u hbad with ⟨cause, hcause⟩
    rw [hcause] at hu
    cases hu
  · intro h
    exact isOk_of_compiles hctx hid fun c hc u hu => hfails.compiles u (hu ▸ h c hc)

theorem Backend.FailsOn.not_panics {failing : Set ProjectId} (h : b.FailsOn failing)
    (u : CompileUnit π) : b.compile u ≠ .panicked := by
  by_cases hu : u.project ∈ failing
  · rcases h.fails u hu with ⟨cause, hcause⟩
    simp [hcause]
  · rcases h.compiles u hu with ⟨a, ha⟩
    simp [ha]

namespace Cache

/-!
# What decides a speculative build
-/

namespace Plan

variable {ctx : Context} {overrides : Overrides} {target : ProjectId}

/-- The projects that a speculative build comes to nothing without. -/
def deciding (ctx : Context) (overrides : Overrides) (target : ProjectId) : List ProjectId :=
  if target ∈ reached ctx overrides then rebuilt ctx overrides target else [target]

theorem self_mem_deciding : target ∈ deciding ctx overrides target := by
  unfold deciding
  split
  · rename_i hreached
    exact self_mem_rebuilt hreached
  · exact List.mem_singleton_self target

theorem reaches_of_deciding {c : ProjectId} (hc : c ∈ deciding ctx overrides target) :
    Graph.Reaches ctx.graph.dependencies target c := by
  unfold deciding at hc
  split at hc
  · exact (Graph.mem_withDependencies.mp (mem_rebuilt.mp hc).right.left).right
  · rw [List.mem_singleton.mp hc]

theorem mem_ids_of_deciding (htarget : target ∈ ctx.graph.ids) {c : ProjectId}
    (hc : c ∈ deciding ctx overrides target) : c ∈ ctx.graph.ids := by
  cases reaches_of_deciding hc with
  | refl => exact htarget
  | tail _ hlast => exact Graph.mem_ids_of_mem_dependencies _ _ hlast

/-- Where no reference is on a cycle, what decides is needed. -/
theorem needs_of_deciding
    (hstraight : ∀ c, Graph.Reaches ctx.graph.dependencies target c →
      ctx.graph.dependencies c ⊆ ctx.graph.effectiveDependencies c)
    {c : ProjectId} (hc : c ∈ deciding ctx overrides target) : ctx.graph.Needs target c := by
  have hreaches := reaches_of_deciding hc
  clear hc
  induction hreaches with
  | refl => exact .refl
  | tail hbefore hlast ih => exact ih.tail (hstraight _ hbefore hlast)

/-- The projects that decide can be avoided by the same failures as the target, whatever
fails, exactly if the target needs them all. -/
theorem needs_iff_avoids :
    (∀ c ∈ deciding ctx overrides target, ctx.graph.Needs target c) ↔
      ∀ bad : Set ProjectId, (∀ c ∈ deciding ctx overrides target, ctx.graph.Avoids bad c) ↔
        ctx.graph.Avoids bad target := by
  constructor
  · intro h bad
    exact ⟨fun havoids => havoids target self_mem_deciding,
      fun havoids c hc => havoids.of_needs (h c hc)⟩
  · intro h c hc
    have havoids : ctx.graph.Avoids {d | ¬ ctx.graph.Needs target d} target :=
      fun d hd hbad => hbad hd
    by_contra hunneeded
    exact (h _).mpr havoids c hc c .refl hunneeded

theorem Speculates.isOk_iff (hctx : ctx.Complete) (htarget : target ∈ ctx.graph.ids)
    {result : Except Error (Artifact π)} (h : Speculates b ctx overrides target result) :
    (∃ a, result = .ok a) ↔
      ∀ c ∈ deciding ctx overrides target, ∃ a, (ctx.override overrides).uncached b c = .ok a := by
  cases h with
  | missing hproject =>
      rcases hctx target htarget with ⟨p, hp⟩
      rw [hproject] at hp
      cases hp
  | unreached hreached hallows =>
      rw [deciding, if_neg hreached, List.forall_mem_singleton,
        uncached_override htarget hreached]
      cases result with
      | ok a => exact ⟨fun _ => ⟨a, hallows⟩, fun _ => ⟨a, rfl⟩⟩
      | error e =>
          rcases hallows with ⟨es, hes, _⟩
          simp [hes]
  | rebuilt hreached hstop _ =>
      rw [deciding, if_pos hreached, ← stop?_eq_none_iff]
      exact ⟨fun _ => hstop, fun _ => ⟨_, rfl⟩⟩
  | stopped hreached hstop _ _ =>
      rw [deciding, if_pos hreached, ← stop?_eq_none_iff, hstop]
      simp

/-- A speculative build comes to an artifact if no project that it depends on needs one
that fails. -/
theorem Speculates.isOk_iff_avoids (hctx : ctx.Complete) (htarget : target ∈ ctx.graph.ids)
    {failing : Set ProjectId} (hfails : b.FailsOn failing)
    {result : Except Error (Artifact π)} (h : Speculates b ctx overrides target result) :
    (∃ a, result = .ok a) ↔
      ∀ c ∈ deciding ctx overrides target, ctx.graph.Avoids failing c := by
  rw [h.isOk_iff hctx htarget]
  refine forall₂_congr fun c hc => ?_
  exact Context.isOk_iff_avoids (hctx.override overrides) hfails (mem_ids_of_deciding htarget hc)

theorem not_crashes {failing : Set ProjectId} (hfails : b.FailsOn failing) :
    ¬ Crashes b ctx overrides target := by
  rintro ⟨_, _, _, _, p, references, _, _, hcompile⟩
  exact hfails.not_panics _ hcompile

end Plan

namespace World

variable {settings : CacheSettings} {w : World π} {streams : Set (List UInt8)}

theorem exists_ok_map_iff {α β : Type} {f : α → β} {result : Except Error α} :
    (∃ c, result.map f = .ok c) ↔ ∃ a, result = .ok a := by
  cases result <;> simp [Except.map]

theorem isOk_of_allows {ctx : Context} (hctx : ctx.Complete) {failing : Set ProjectId}
    (hfails : b.FailsOn failing) {id : ProjectId} (hid : id ∈ ctx.graph.ids) {β : Type}
    {f : Artifact π → β} {result : Except Error β}
    (h : Verdict.Allows ((ctx.uncached b id).map f) result) :
    (∃ a, result = .ok a) ↔ ctx.graph.Avoids failing id := by
  rw [← Context.isOk_iff_avoids hctx hfails hid]
  cases hbuild : ctx.uncached b id with
  | ok a =>
      rw [hbuild] at h
      exact ⟨fun _ => ⟨a, rfl⟩, fun _ => ⟨f a, h.eq_of_ok⟩⟩
  | error es =>
      rw [hbuild] at h
      cases result with
      | ok a => cases h
      | error e => simp

/-- Whatever the cache has been through, a project comes to an artifact if it needs none
of those that fail. A speculative build does if no rebuilt project needs one of those,
which is the same, whatever fails, exactly if every rebuilt project is needed, as it is
where no reference is on a cycle. -/
theorem builds_unless_failure_needed (hfree : CollisionFree b.environment streams)
    (hreach : w.Reachable b settings) (hknown : w.Known b streams) {failing : Set ProjectId}
    (hfails : b.FailsOn failing) (session : SessionId) {ws : Workspace} {id : ProjectId}
    (hid : id ∈ (Graph.build ws).ids)
    (hcov : ∀ other, (Context.ofWorkspace session ws).Covered b.environment streams other) :
    (∃ result s,
      w.schedule.drive b (Plan.getOrCreate (.ofWorkspace session ws) id).run =
        (.returned result, s) ∧
      ((∃ a, result = .ok a) ↔ (Graph.build ws).Avoids failing id)) ∧
    (∀ c ∈ w.clients, c.call = .artifact (.ofWorkspace session ws) id →
      w.Serves b c fun reply =>
        (∃ a, reply = .ok a) ↔ (Graph.build ws).Avoids failing id) ∧
    ∀ overrides,
      (∃ result s,
        w.schedule.drive b (Plan.speculate (.ofWorkspace session ws) id overrides).run =
          (.returned result, s) ∧
        ((∃ a, result = .ok a) ↔
          ∀ d ∈ Plan.deciding (.ofWorkspace session ws) overrides id,
            (Graph.build ws).Avoids failing d)) ∧
      (∀ c ∈ w.clients, c.call = .speculate (.ofWorkspace session ws) id overrides →
        w.Serves b c fun reply => (∃ a, reply = .ok a) ↔
          ∀ d ∈ Plan.deciding (.ofWorkspace session ws) overrides id,
            (Graph.build ws).Avoids failing d) ∧
      ((∀ d ∈ Plan.deciding (.ofWorkspace session ws) overrides id,
          (Graph.build ws).Needs id d) ↔
        ∀ bad, (∀ d ∈ Plan.deciding (.ofWorkspace session ws) overrides id,
            (Graph.build ws).Avoids bad d) ↔
          (Graph.build ws).Avoids bad id) ∧
      ((∀ d, Graph.Reaches (Graph.build ws).dependencies id d →
          (Graph.build ws).dependencies d ⊆ (Graph.build ws).effectiveDependencies d) →
        ∀ d ∈ Plan.deciding (.ofWorkspace session ws) overrides id,
          (Graph.build ws).Needs id d) := by
  have hsound := sound_of_reachable hfree hreach hknown
  have hctx := Context.complete_ofWorkspace session ws
  refine ⟨?_, ?_, fun overrides => ⟨?_, ?_, Plan.needs_iff_avoids,
    fun hstraight _ => Plan.needs_of_deciding hstraight⟩⟩
  · rcases Schedule.drive_good hfree (Plan.ensures_getOrCreate (hcov id)) hsound.schedule with
      ⟨result, s, hdrive, hallows, _⟩
    have hiff := isOk_of_allows hctx hfails hid (hallows.map fun a => a)
    exact ⟨result, s, hdrive,
      (exists_ok_map_iff.trans exists_ok_map_iff).symm.trans hiff⟩
  · intro c hc hcall
    refine serves_of_allows hfree hsound hc (by rw [hcall]; exact fun h => h) ?_
    intro reply hallows
    rw [hcall] at hallows
    exact isOk_of_allows hctx hfails hid hallows
  · rcases Schedule.drive_good hfree
        (Plan.ensures_speculates hcov fun hcrashes => Plan.not_crashes hfails hcrashes)
        hsound.schedule with
      ⟨result, s, hdrive, hbuilt, _⟩
    exact ⟨result, s, hdrive,
      exists_ok_map_iff.symm.trans (hbuilt.isOk_iff_avoids hctx hid hfails)⟩
  · intro c hc hcall
    refine serves_of_allows hfree hsound hc (by rw [hcall]; exact Plan.not_crashes hfails) ?_
    intro reply hallows
    rw [hcall] at hallows
    rcases hallows with ⟨built, hbuilt, rfl⟩
    exact exists_ok_map_iff.trans (hbuilt.isOk_iff_avoids hctx hid hfails)

/-!
# A project and its partner on a cycle
-/

/-- A backend that fails on one project only. -/
def failingOn (id : ProjectId) : Backend (List Document) :=
  { echo with
    compile := fun u => if u.project = id then .failed "no" else echo.compile u }

theorem failsOn_failingOn (id : ProjectId) : (failingOn id).FailsOn {id} where
  fails _ hu := ⟨"no", if_pos hu⟩
  compiles u hu := ⟨⟨u.project, u.sources⟩, if_neg hu⟩

/-- For one, a project that fails comes to nothing, in a speculative build too. -/
theorem builds_unless_failure_needed_lone : ∃ result result' s s',
    (World.start .default).schedule.drive (failingOn ⟨"a"⟩)
        (Plan.getOrCreate (lone "old") ⟨"a"⟩).run = (.returned result, s) ∧
      (World.start .default).schedule.drive (failingOn ⟨"a"⟩)
        (Plan.speculate (lone "old") ⟨"a"⟩ (PathMap.empty.insert ⟨"/a.arb"⟩ "new")).run =
          (.returned result', s') ∧
      (¬ ∃ a, result = .ok a) ∧ ¬ ∃ a, result' = .ok a := by
  let streams : Set (List UInt8) := {Stream.ofProject (loneProject "old") "" []}
  have hid : ⟨"a"⟩ ∈ (Graph.build (loneWorkspace "old")).ids := by decide +kernel
  have hcov (other : ProjectId) : (lone "old").Covered "" streams other :=
    ⟨fits_lone fits_old, fun _ hs => Set.mem_singleton_iff.mpr (hashes_lone hs)⟩
  rcases builds_unless_failure_needed (b := failingOn ⟨"a"⟩)
      (collisionFree_lone fun _ => Set.mem_singleton_iff.mp) (w := .start .default) .refl
      ⟨nofun, nofun⟩ (failsOn_failingOn ⟨"a"⟩) ⟨"s"⟩ hid hcov with
    ⟨⟨result, s, hdrive, hiff⟩, _, hspeculates⟩
  rcases hspeculates (PathMap.empty.insert ⟨"/a.arb"⟩ "new") with
    ⟨⟨result', s', hdrive', hiff'⟩, _⟩
  have hneeded : ¬ (Graph.build (loneWorkspace "old")).Avoids {⟨"a"⟩} ⟨"a"⟩ :=
    fun havoids => havoids ⟨"a"⟩ .refl rfl
  exact ⟨result, result', s, s', hdrive, hdrive', fun hok => hneeded (hiff.mp hok),
    fun hok => hneeded (hiff'.mp hok ⟨"a"⟩ Plan.self_mem_deciding)⟩

/-- Two projects that refer to each other. -/
def pairWorkspace : Workspace :=
  ⟨⟨"/"⟩, [⟨⟨"p"⟩, "p", [⟨⟨"/p.arb"⟩, "old"⟩], [⟨"q"⟩], [], .empty⟩,
    ⟨⟨"q"⟩, "q", [], [⟨"p"⟩], [], .empty⟩]⟩

/-- Of the two, one needs only itself and fails with the other in a speculative build. -/
theorem partner_fails_speculation :
    (failingOn ⟨"q"⟩).FailsOn {⟨"q"⟩} ∧
      ⟨"p"⟩ ∈ (Graph.build pairWorkspace).ids ∧
      (Graph.build pairWorkspace).Avoids {⟨"q"⟩} ⟨"p"⟩ ∧
      ∃ s, (World.start .default).schedule.drive (failingOn ⟨"q"⟩)
        (Plan.speculate (.ofWorkspace ⟨"s"⟩ pairWorkspace) ⟨"p"⟩
          (PathMap.empty.insert ⟨"/p.arb"⟩ "new")).run =
            (.returned (.error (.compileFailed ⟨"q"⟩ "no")), s) := by
  refine ⟨failsOn_failingOn ⟨"q"⟩, by decide +kernel, ?_, ?_⟩
  · have hnone : (Graph.build pairWorkspace).effectiveDependencies ⟨"p"⟩ = [] := by
      decide +kernel
    intro c hc
    rcases hc.cases_head with rfl | ⟨d, hd, _⟩
    · decide
    · rw [hnone] at hd
      cases hd
  · exact ⟨_, rfl⟩

end World
end Cache
end Ripple
