import Ripple.Proofs.Cache.Plans
import Ripple.Proofs.Graph.Build

/-!
# Speculative builds

Overriding texts changes no reference, so the graph stays. What no override
reaches has the uncached build that it had, and whatever is reached is rebuilt
before the projects that depend on it. So a speculative build comes to the
uncached build of the overridden workspace.
-/

namespace Ripple

/-!
# Overridden workspaces
-/

theorem Project.override_of_not_touched {p : Project} {overrides : Overrides}
    (h : ¬ p.isTouchedBy overrides) : p.override overrides = p := by
  have hdocuments : p.documents.map (Document.override overrides) = p.documents := by
    conv_rhs => rw [← List.map_id p.documents]
    apply List.map_congr_left
    intro d hd
    have hnone : overrides.get? d.path = none := by
      by_contra hsome
      apply h
      rw [isTouchedBy, List.any_eq_true]
      exact ⟨d, hd, Option.isSome_iff_ne_none.mpr hsome⟩
    simp [Document.override, hnone]
  rw [override, hdocuments]

namespace Workspace

theorem project?_override (w : Workspace) (overrides : Overrides) (id : ProjectId) :
    (w.override overrides).project? id = (w.project? id).map (Project.override overrides) := by
  simp only [project?, override, List.find?_map]
  rfl

end Workspace

namespace Context

def override (ctx : Context) (overrides : Overrides) : Context :=
  { ctx with workspace := ctx.workspace.override overrides }

theorem override_ofWorkspace (session : SessionId) (w : Workspace) (overrides : Overrides) :
    (ofWorkspace session w).override overrides = ofWorkspace session (w.override overrides) := by
  rw [override, ofWorkspace, ofWorkspace,
    Graph.build_congr (w.map_shape_override overrides)]

/-- All nodes of the graph are projects of the workspace. -/
def Complete (ctx : Context) : Prop :=
  ∀ id ∈ ctx.graph.ids, ∃ p, ctx.workspace.project? id = some p

theorem complete_ofWorkspace (session : SessionId) (w : Workspace) :
    (ofWorkspace session w).Complete :=
  fun _ h => Graph.project?_of_mem_ids h

theorem Complete.override {ctx : Context} (h : ctx.Complete) (overrides : Overrides) :
    (ctx.override overrides).Complete := by
  intro id hid
  rcases h id hid with ⟨p, hp⟩
  exact ⟨p.override overrides, by rw [Context.override, Workspace.project?_override, hp]; rfl⟩

theorem exists_uncachedAll_iff {π : Type} {b : Backend π} {ctx : Context}
    {ids : List ProjectId} :
    (∃ as, ctx.uncachedAll b ids = .ok as) ↔ ∀ c ∈ ids, ∃ a, ctx.uncached b c = .ok a := by
  induction ids with
  | nil => exact ⟨fun _ => nofun, fun _ => ⟨[], rfl⟩⟩
  | cons c ids ih =>
      rw [List.forall_mem_cons, ← ih]
      simp only [uncachedAll, List.map_cons]
      cases hc : ctx.uncached b c with
      | ok a =>
          simp only [Verdict.all]
          cases Verdict.all (ids.map fun c => (c, ctx.uncached b c)) <;> simp [Except.map]
      | error es =>
          simp only [Verdict.all]
          cases Verdict.all (ids.map fun c => (c, ctx.uncached b c)) <;> simp

/-- A project comes to an artifact if no compile fails of those that it needs. -/
theorem isOk_of_compiles {π : Type} {b : Backend π} {ctx : Context} (hctx : ctx.Complete)
    {id : ProjectId} (hid : id ∈ ctx.graph.ids)
    (h : ∀ c, ctx.graph.Needs id c → ∀ u, u.project = c → ∃ a, b.compile u = .compiled a) :
    ∃ a, ctx.uncached b id = .ok a := by
  induction id using ctx.graph.effective_induction with
  | step id ih =>
      rcases hctx id hid with ⟨p, hp⟩
      rcases exists_uncachedAll_iff.mpr fun c hc =>
          ih c hc (Graph.mem_ids_of_effective hc) fun d hd => h d (.head hc hd) with
        ⟨as, has⟩
      rcases h id .refl (.ofProject p as) (project?_mem hp).right with ⟨a, ha⟩
      exact ⟨a, uncached_eq_ok_iff.mpr ⟨p, as, hp, has, ha⟩⟩

/-- Where no compile fails there is an uncached build of every node. -/
theorem uncached_isOk {π : Type} {b : Backend π} {ctx : Context} (h : ctx.Complete)
    (hcompiles : ∀ u, ∃ a, b.compile u = .compiled a) {id : ProjectId}
    (hid : id ∈ ctx.graph.ids) : ∃ a, ctx.uncached b id = .ok a :=
  isOk_of_compiles h hid fun _ _ u _ => hcompiles u

/-- The backend panics on the project itself, with all artifacts there that it is
compiled against. -/
def Panics {π : Type} (ctx : Context) (b : Backend π) (id : ProjectId) : Prop :=
  ∃ p references, ctx.workspace.project? id = some p ∧
    ctx.uncachedAll b (ctx.graph.effectiveDependencies id) = .ok references ∧
    b.compile (.ofProject p references) = .panicked

theorem uncached_of_panics {π : Type} {b : Backend π} {ctx : Context} {id : ProjectId}
    (h : ctx.Panics b id) : ctx.uncached b id = .error [.compilePanicked id] := by
  rcases h with ⟨p, references, hp, hall, hcompile⟩
  rw [uncached_eq, hp, hall]
  simp only [hcompile, verdictOf]

end Context

/-!
# What overrides reach
-/

namespace Cache
namespace Plan

theorem mem_reached {ctx : Context} {overrides : Overrides} {id : ProjectId} :
    id ∈ reached ctx overrides ↔ ∃ p ∈ ctx.workspace.projects, p.isTouchedBy overrides ∧
      id ∈ ctx.graph.withDependents p.id := by
  simp [reached, and_assoc]

theorem mem_reached_of_touched {ctx : Context} {overrides : Overrides} {id : ProjectId}
    {p : Project} (hid : id ∈ ctx.graph.ids) (hp : ctx.workspace.project? id = some p)
    (htouched : p.isTouchedBy overrides) : id ∈ reached ctx overrides := by
  rcases Context.project?_mem hp with ⟨hmem, heq⟩
  refine mem_reached.mpr ⟨p, hmem, htouched, ?_⟩
  rw [heq]
  exact Graph.self_mem_withDependents hid

theorem mem_reached_of_effective {ctx : Context} {overrides : Overrides} {id c : ProjectId}
    (hc : c ∈ ctx.graph.effectiveDependencies id) (hreached : c ∈ reached ctx overrides) :
    id ∈ reached ctx overrides := by
  rcases mem_reached.mp hreached with ⟨p, hp, htouched, hbelow⟩
  exact mem_reached.mpr ⟨p, hp, htouched, Graph.mem_withDependents_of_effective hc hbelow⟩

theorem mem_ids_of_reached {ctx : Context} {overrides : Overrides} {id : ProjectId}
    (h : id ∈ reached ctx overrides) : id ∈ ctx.graph.ids := by
  rcases mem_reached.mp h with ⟨p, _, _, hbelow⟩
  rcases Graph.mem_withDependents.mp hbelow with ⟨hcontains, hreaches⟩
  cases hreaches with
  | refl => exact Graph.mem_ids_iff_contains.mpr hcontains
  | tail _ hlast => exact Graph.mem_ids_of_mem_dependents _ _ hlast

/-- The uncached build of a project does not change unless an override reaches it. -/
theorem uncached_override {π : Type} {b : Backend π} {ctx : Context} {overrides : Overrides}
    {id : ProjectId} (hid : id ∈ ctx.graph.ids) (h : id ∉ reached ctx overrides) :
    (ctx.override overrides).uncached b id = ctx.uncached b id := by
  have hgraph : (ctx.override overrides).graph = ctx.graph := rfl
  refine Context.fold_congr (P := fun id => id ∈ ctx.graph.ids ∧ id ∉ reached ctx overrides)
    hgraph ?_ ?_ _ ⟨hid, h⟩
  · rintro id c ⟨_, h⟩ hc
    exact ⟨Graph.mem_ids_of_effective hc, fun hreached => h (mem_reached_of_effective hc hreached)⟩
  · rintro id ⟨hid, h⟩
    rw [Context.override, Workspace.project?_override]
    cases hp : ctx.workspace.project? id with
    | none => rfl
    | some p =>
        have huntouched : ¬ p.isTouchedBy overrides :=
          fun htouched => h (mem_reached_of_touched hid hp htouched)
        rw [Option.map_some, Project.override_of_not_touched huntouched]

/-!
# What is rebuilt
-/

theorem mem_rebuilt {ctx : Context} {overrides : Overrides} {target id : ProjectId} :
    id ∈ rebuilt ctx overrides target ↔
      id ∈ ctx.graph.ids ∧ id ∈ ctx.graph.withDependencies target ∧
        id ∈ reached ctx overrides := by
  simp [rebuilt, Graph.mem_topologicalOrder]

/-- What is reached is rebuilt for itself. -/
theorem self_mem_rebuilt {ctx : Context} {overrides : Overrides} {target : ProjectId}
    (h : target ∈ reached ctx overrides) : target ∈ rebuilt ctx overrides target :=
  mem_rebuilt.mpr ⟨mem_ids_of_reached h, Graph.mem_withDependencies.mpr
    ⟨Graph.mem_ids_iff_contains.mp (mem_ids_of_reached h), .refl⟩, h⟩

/-- A dependency of what is rebuilt is rebuilt before it or is not reached. -/
theorem mem_before_of_rebuilt {ctx : Context} {overrides : Overrides} {target id c : ProjectId}
    {before after : List ProjectId}
    (hsplit : rebuilt ctx overrides target = before ++ id :: after)
    (hc : c ∈ ctx.graph.effectiveDependencies id) (hreached : c ∈ reached ctx overrides) :
    c ∈ before := by
  have hid : id ∈ rebuilt ctx overrides target := by
    rw [hsplit]
    exact List.mem_append_right _ List.mem_cons_self
  rcases mem_rebuilt.mp hid with ⟨_, hneeded, _⟩
  rcases Graph.mem_withDependencies.mp hneeded with ⟨hcontains, hreach⟩
  have hmem : c ∈ rebuilt ctx overrides target :=
    mem_rebuilt.mpr ⟨Graph.mem_ids_of_effective hc, Graph.mem_withDependencies.mpr
      ⟨hcontains, hreach.tail (Graph.mem_dependencies_of_effective hc)⟩, hreached⟩
  have hpairwise : (rebuilt ctx overrides target).Pairwise
      fun a c => c ∉ ctx.graph.effectiveDependencies a :=
    (Graph.pairwise_topologicalOrder ctx.graph).filter _
  rw [hsplit] at hpairwise hmem
  exact Graph.mem_before_of_pairwise hpairwise hc hmem

section

variable {π : Type} {b : Backend π} {streams : Set (List UInt8)}
  {asks : Context → ProjectId → Prop} {panics : Prop} {ctx : Context} {overrides : Overrides}

/-- The table holds uncached artifacts of the overridden workspace. -/
def Rebuilt (b : Backend π) (ctx : Context) (overrides : Overrides) (built : Built π) : Prop :=
  ∀ c a, built.get? c = some a → (ctx.override overrides).uncached b c = .ok a.value

/-- What was rebuilt, or else the stored artifact. -/
def reference (ctx : Context) (built : Built π) (c : ProjectId) : Attempt π (Held (Artifact π)) :=
  match built.get? c with
  | some a => pure a
  | none => getOrCreate ctx c

theorem references_cons (ctx : Context) (built : Built π) (c : ProjectId)
    (ids : List ProjectId) :
    references ctx built (c :: ids) = (do
      let a ← reference ctx built c
      let more ← references ctx built ids
      pure (a :: more)) := by
  rw [references, reference]
  cases built.get? c <;> rfl

theorem ensures_reference (hasks : ∀ c, asks ctx c) {built : Built π} {c : ProjectId}
    (hbuilt : Rebuilt b ctx overrides built) (hc : c ∈ ctx.graph.ids)
    (hunreached : built.get? c = none → c ∉ reached ctx overrides) :
    Ensures b streams asks panics
      (fun result => ((ctx.override overrides).uncached b c).Allows (result.map Held.value))
      (reference ctx built c).run := by
  unfold reference
  cases hget : built.get? c with
  | some a => exact hbuilt c a hget
  | none =>
      refine (ensures_getOrCreate (hasks c)).imp ?_
      intro result hresult
      rwa [uncached_override hc (hunreached hget)]

/-- References are put together one after the other; the first error is the result. -/
theorem ensures_references (hasks : ∀ c, asks ctx c) {built : Built π} {ids : List ProjectId}
    (hbuilt : Rebuilt b ctx overrides built)
    (hids : ∀ c ∈ ids, c ∈ ctx.graph.ids ∧
      (built.get? c = none → c ∉ reached ctx overrides)) :
    Ensures b streams asks panics
      (fun result => ((ctx.override overrides).uncachedAll b ids).Allows
        (result.map (List.map Held.value)))
      (references ctx built ids).run := by
  induction ids with
  | nil => exact rfl
  | cons c ids ih =>
      rw [List.forall_mem_cons] at hids
      rcases hids with ⟨⟨hc, hunreached⟩, hrest⟩
      rw [references_cons]
      apply ensures_attempt_bind
      refine (ensures_reference hasks hbuilt hc hunreached).imp ?_
      intro result hresult
      have hrow : (c, (ctx.override overrides).uncached b c) ∈
          (c :: ids).map fun c => (c, (ctx.override overrides).uncached b c) :=
        List.mem_cons_self
      cases result with
      | error e =>
          rcases hresult with ⟨es, hes, he⟩
          rw [hes] at hrow
          rcases Verdict.mem_all_errors hrow with ⟨all, hall, hsub⟩
          exact ⟨all, hall, hsub he⟩
      | ok a =>
          have ha : (ctx.override overrides).uncached b c = .ok a.value := hresult
          apply ensures_attempt_bind
          refine (ih hrest).imp ?_
          intro more hmore
          have hall : (ctx.override overrides).uncachedAll b (c :: ids) =
              ((ctx.override overrides).uncachedAll b ids).map (a.value :: ·) := by
            simp only [Context.uncachedAll, List.map_cons, ha, Verdict.all]
          rw [hall]
          cases more with
          | error e => exact hmore.map (a.value :: ·)
          | ok found => exact hmore.map (a.value :: ·)

theorem ensures_compileAlone (id : ProjectId) {u : CompileUnit π}
    (hpanics : b.compile u = .panicked → panics) :
    Ensures b streams asks panics
      (fun result => b.compile u ≠ .panicked ∧
        (Context.verdictOf id (b.compile u)).Allows (result.map Held.value))
      (compileAlone id u).run := by
  show Ensures b streams asks panics _ (Plan.compile u _)
  unfold Ensures
  cases hcompile : b.compile u with
  | compiled a =>
      intro stamp
      refine ⟨?_, rfl⟩
      intro hpanicked
      cases hpanicked
  | failed cause =>
      refine ⟨?_, _, rfl, List.mem_singleton_self _⟩
      intro hpanicked
      cases hpanicked
  | panicked => exact hpanics hcompile

/-!
# Where a rebuild stops
-/

/-- The first of the projects to rebuild that comes to nothing. -/
def stop? (b : Backend π) (ctx : Context) (overrides : Overrides) (target : ProjectId) :
    Option ProjectId :=
  (rebuilt ctx overrides target).find? fun c => !((ctx.override overrides).uncached b c).isOk

theorem stop?_eq_none_iff {target : ProjectId} :
    stop? b ctx overrides target = none ↔
      ∀ c ∈ rebuilt ctx overrides target, ∃ a, (ctx.override overrides).uncached b c = .ok a := by
  simp only [stop?, List.find?_eq_none, Bool.not_eq_true, Bool.not_eq_false']
  refine forall₂_congr fun c _ => ?_
  cases (ctx.override overrides).uncached b c <;> simp [Except.isOk, Except.toBool]

theorem exists_error_of_stop? {target id : ProjectId}
    (h : stop? b ctx overrides target = some id) :
    id ∈ rebuilt ctx overrides target ∧
      ∃ es, (ctx.override overrides).uncached b id = .error es := by
  refine ⟨List.mem_of_find?_eq_some h, ?_⟩
  have hfails := List.find?_some h
  cases hbuild : (ctx.override overrides).uncached b id with
  | ok a => simp [hbuild, Except.isOk, Except.toBool] at hfails
  | error es => exact ⟨es, rfl⟩

theorem stop?_of_split {target id : ProjectId} {before after : List ProjectId} {es : List Error}
    (hsplit : rebuilt ctx overrides target = before ++ id :: after)
    (hbefore : ∀ c ∈ before, ∃ a, (ctx.override overrides).uncached b c = .ok a)
    (hfails : (ctx.override overrides).uncached b id = .error es) :
    stop? b ctx overrides target = some id := by
  rw [stop?, hsplit, List.find?_append]
  have hnone : before.find? (fun c => !((ctx.override overrides).uncached b c).isOk) = none := by
    rw [List.find?_eq_none]
    intro c hc
    rcases hbefore c hc with ⟨a, ha⟩
    simp [ha, Except.isOk, Except.toBool]
  rw [hnone, Option.none_or]
  exact List.find?_cons_of_pos (by simp [hfails, Except.isOk, Except.toBool])

/-- One more artifact is kept, when it is what its project comes to. -/
theorem Rebuilt.insert {built : Built π} (hbuilt : Rebuilt b ctx overrides built)
    {id : ProjectId} {a : Held (Artifact π)}
    (ha : (ctx.override overrides).uncached b id = .ok a.value) :
    Rebuilt b ctx overrides (built.insert id a) := by
  intro c a' ha'
  rw [Table.get?_insert] at ha'
  by_cases hcid : c = id
  · rw [if_pos hcid] at ha'
    cases ha'
    rw [hcid, ha]
  · rw [if_neg hcid] at ha'
    exact hbuilt c a' ha'

theorem get?_insert_ne_none {built : Built π} {before : List ProjectId} {id : ProjectId}
    {a : Held (Artifact π)} (hdone : ∀ c ∈ before, built.get? c ≠ none) :
    ∀ c ∈ before ++ [id], (built.insert id a).get? c ≠ none := by
  intro c hc hnone
  rw [Table.get?_insert] at hnone
  by_cases hcid : c = id
  · rw [if_pos hcid] at hnone
    cases hnone
  · rw [if_neg hcid] at hnone
    rcases List.mem_append.mp hc with hc | hc
    · exact hdone c hc hnone
    · exact hcid (List.mem_singleton.mp hc)

/-- A rebuild comes to artifacts of all projects, or stops at the first that comes to
nothing, with an error of its, unless the backend panics on that one. -/
theorem ensures_rebuild (hasks : ∀ c, asks ctx c) {target : ProjectId} {built : Built π}
    (hpanics : ∀ id, stop? b ctx overrides target = some id →
      (ctx.override overrides).Panics b id → panics)
    {before ids : List ProjectId} (hsplit : rebuilt ctx overrides target = before ++ ids)
    (hbuilt : Rebuilt b ctx overrides built) (hdone : ∀ c ∈ before, built.get? c ≠ none) :
    Ensures b streams asks panics
      (fun
        | .ok built' => Rebuilt b ctx overrides built' ∧
            ∀ c ∈ rebuilt ctx overrides target, built'.get? c ≠ none
        | .error e => ∃ id, stop? b ctx overrides target = some id ∧
            ((ctx.override overrides).uncached b id).Allows (.error e) ∧
            ¬ (ctx.override overrides).Panics b id)
      (rebuild ctx overrides built ids).run := by
  induction ids generalizing before built with
  | nil =>
      rw [List.append_nil] at hsplit
      exact ⟨hbuilt, hsplit ▸ hdone⟩
  | cons id ids ih =>
      have hbefore : ∀ c ∈ before, ∃ a, (ctx.override overrides).uncached b c = .ok a := by
        intro c hc
        rcases Option.ne_none_iff_exists'.mp (hdone c hc) with ⟨a, ha⟩
        exact ⟨a.value, hbuilt c a ha⟩
      have hproject : (ctx.override overrides).workspace.project? id =
          (ctx.workspace.project? id).map (Project.override overrides) :=
        Workspace.project?_override _ _ _
      unfold rebuild
      cases hp : ctx.workspace.project? id with
      | none =>
          rw [hp, Option.map_none] at hproject
          have hfails : (ctx.override overrides).uncached b id =
              .error [.projectNotFound id] := by
            rw [Context.uncached_eq, hproject]
          refine ⟨id, stop?_of_split hsplit hbefore hfails,
            ⟨_, hfails, List.mem_singleton_self _⟩, ?_⟩
          rintro ⟨p, _, hp', _⟩
          rw [hproject] at hp'
          cases hp'
      | some p =>
          rw [hp, Option.map_some] at hproject
          have hbuild := (ctx.override overrides).uncached_eq b id
          rw [hproject] at hbuild
          apply ensures_attempt_bind
          refine (ensures_references hasks hbuilt ?_).imp ?_
          · intro c hc
            refine ⟨Graph.mem_ids_of_effective hc, fun hnone hreached => ?_⟩
            exact hdone c (mem_before_of_rebuilt hsplit hc hreached) hnone
          · intro found hfound
            cases found with
            | error e =>
                rcases hfound with ⟨es, hall, he⟩
                have hall : (ctx.override overrides).uncachedAll b
                    ((ctx.override overrides).graph.effectiveDependencies id) = .error es := hall
                simp only [hall] at hbuild
                refine ⟨id, stop?_of_split hsplit hbefore hbuild, ⟨es, hbuild, he⟩, ?_⟩
                rintro ⟨_, references, _, hall', _⟩
                rw [hall] at hall'
                cases hall'
            | ok found =>
                have hall : (ctx.override overrides).uncachedAll b
                    ((ctx.override overrides).graph.effectiveDependencies id) =
                      .ok (found.map Held.value) := hfound
                simp only [hall] at hbuild
                apply ensures_attempt_bind
                refine (ensures_compileAlone id fun hcompile => ?_).imp ?_
                · have hpanic : (ctx.override overrides).Panics b id :=
                    ⟨_, _, hproject, hall, hcompile⟩
                  exact hpanics id
                    (stop?_of_split hsplit hbefore (Context.uncached_of_panics hpanic)) hpanic
                · rintro compiled ⟨hcalm, hcompiled⟩
                  rw [← hbuild] at hcompiled
                  cases compiled with
                  | error e =>
                      rcases hcompiled with ⟨es, hes, he⟩
                      refine ⟨id, stop?_of_split hsplit hbefore hes, ⟨es, hes, he⟩, ?_⟩
                      rintro ⟨_, _, hp', hall', hcompile⟩
                      rw [hproject] at hp'
                      rw [hall] at hall'
                      cases hp'
                      cases hall'
                      exact hcalm hcompile
                  | ok a =>
                      have ha : (ctx.override overrides).uncached b id = .ok a.value := hcompiled
                      have hsplit' : rebuilt ctx overrides target = (before ++ [id]) ++ ids := by
                        rw [hsplit, List.append_assoc]
                        rfl
                      exact ih hsplit' (hbuilt.insert ha) (get?_insert_ne_none hdone)

/-!
# Speculative builds
-/

/-- What a speculative build may come to. -/
inductive Speculates (b : Backend π) (ctx : Context) (overrides : Overrides)
    (target : ProjectId) : Except Error (Artifact π) → Prop where
  | missing (hproject : ctx.workspace.project? target = none) :
      Speculates b ctx overrides target (.error (.projectNotFound target))
  | unreached {result : Except Error (Artifact π)} (hreached : target ∉ reached ctx overrides)
      (hallows : (ctx.uncached b target).Allows result) :
      Speculates b ctx overrides target result
  | rebuilt {a : Artifact π} (hreached : target ∈ reached ctx overrides)
      (hstop : stop? b ctx overrides target = none)
      (ha : (ctx.override overrides).uncached b target = .ok a) :
      Speculates b ctx overrides target (.ok a)
  | stopped {id : ProjectId} {e : Error} (hreached : target ∈ reached ctx overrides)
      (hstop : stop? b ctx overrides target = some id)
      (hallows : ((ctx.override overrides).uncached b id).Allows (.error e))
      (hcalm : ¬ (ctx.override overrides).Panics b id) :
      Speculates b ctx overrides target (.error e)

/-- The backend panics in a speculative build itself. -/
structure Crashes (b : Backend π) (ctx : Context) (overrides : Overrides)
    (target : ProjectId) : Prop where
  known : ∃ p, ctx.workspace.project? target = some p
  reached : target ∈ reached ctx overrides
  panics : ∃ id, stop? b ctx overrides target = some id ∧ (ctx.override overrides).Panics b id

/-- If it does, then the build comes to no result. -/
theorem Speculates.not_crashes {target : ProjectId} {result : Except Error (Artifact π)}
    (h : Speculates b ctx overrides target result) : ¬ Crashes b ctx overrides target := by
  rintro ⟨⟨p, hp⟩, hreached, id, hstop, hpanics⟩
  cases h with
  | missing hproject =>
      rw [hp] at hproject
      cases hproject
  | unreached hunreached _ => exact hunreached hreached
  | rebuilt _ hnone _ =>
      rw [hstop] at hnone
      cases hnone
  | stopped _ hstop' _ hcalm =>
      cases hstop.symm.trans hstop'
      exact hcalm hpanics

theorem ensures_speculates (hasks : ∀ c, asks ctx c) {target : ProjectId}
    (hpanics : Crashes b ctx overrides target → panics) :
    Ensures b streams asks panics
      (fun result => Speculates b ctx overrides target (result.map Held.value))
      (speculate (π := π) ctx target overrides).run := by
  unfold speculate
  cases hp : ctx.workspace.project? target with
  | none => exact .missing hp
  | some p =>
      simp only
      split
      · rename_i hreached
        apply ensures_attempt_bind
        have hsplit : rebuilt ctx overrides target = [] ++ rebuilt ctx overrides target := rfl
        refine (ensures_rebuild hasks
          (fun id hstop hpanic => hpanics ⟨⟨p, hp⟩, hreached, id, hstop, hpanic⟩)
          hsplit ?_ ?_).imp ?_
        · intro c a ha
          rw [Table.get?_empty] at ha
          cases ha
        · intro c hc
          cases hc
        · intro result hresult
          cases result with
          | error e =>
              rcases hresult with ⟨id, hstop, hallows, hcalm⟩
              exact .stopped hreached hstop hallows hcalm
          | ok built =>
              rcases hresult with ⟨hbuilt, hall⟩
              simp only
              split
              · rename_i a hget
                refine .rebuilt hreached (stop?_eq_none_iff.mpr fun c hc => ?_)
                  (hbuilt target a hget)
                rcases Option.ne_none_iff_exists'.mp (hall c hc) with ⟨a, ha⟩
                exact ⟨a.value, hbuilt c a ha⟩
              · rename_i hget
                exact absurd hget (hall target (self_mem_rebuilt hreached))
      · rename_i hreached
        exact (ensures_getOrCreate (hasks target)).imp fun _ => .unreached hreached

/-- The diagnostics are those of the artifact that the build comes to. -/
theorem ensures_speculatesDiagnostics (hasks : ∀ c, asks ctx c) {target : ProjectId}
    (hpanics : Crashes b ctx overrides target → panics) (s : AnalyzerSet) (analyzed : Bool) :
    Ensures b streams asks panics
      (fun result => ∃ built, Speculates b ctx overrides target built ∧
        result = built.bind fun a => collect b a s analyzed)
      (speculativeDiagnostics b ctx target overrides s analyzed).run := by
  apply ensures_attempt_bind
  refine (ensures_speculates hasks hpanics).imp ?_
  intro result hresult
  cases result with
  | error e => exact ⟨_, hresult, rfl⟩
  | ok held => exact ⟨_, hresult, rfl⟩

/-!
# Builds without failures
-/

/-- No compile fails, and all nodes of the graph are projects of the workspace. -/
structure Faultless (b : Backend π) (ctx : Context) : Prop where
  compiles : ∀ u, ∃ a, b.compile u = .compiled a
  complete : ctx.Complete

theorem Crashes.exists_fault {target : ProjectId} (h : Crashes b ctx overrides target) :
    ¬ ∀ u, ∃ a, b.compile u = .compiled a := by
  rcases h.panics with ⟨_, _, p, references, _, _, hcompile⟩
  intro hcompiles
  rcases hcompiles (.ofProject p references) with ⟨a, ha⟩
  rw [hcompile] at ha
  cases ha

theorem Speculates.faultless {target : ProjectId} {result : Except Error (Artifact π)}
    (h : Speculates b ctx overrides target result) (hfaultless : Faultless b ctx)
    (htarget : target ∈ ctx.graph.ids) :
    ∃ a, result = .ok a ∧ (ctx.override overrides).uncached b target = .ok a := by
  have hbuilds {id : ProjectId} (hid : id ∈ ctx.graph.ids) :
      ∃ a, (ctx.override overrides).uncached b id = .ok a :=
    Context.uncached_isOk (hfaultless.complete.override overrides) hfaultless.compiles hid
  cases h with
  | missing hproject =>
      rcases hfaultless.complete target htarget with ⟨p, hp⟩
      rw [hp] at hproject
      cases hproject
  | unreached hunreached hallows =>
      rcases hbuilds htarget with ⟨a, ha⟩
      rw [← uncached_override htarget hunreached, ha] at hallows
      exact ⟨a, hallows.eq_of_ok, ha⟩
  | rebuilt _ _ ha => exact ⟨_, rfl, ha⟩
  | stopped _ hstop _ _ =>
      rcases exists_error_of_stop? hstop with ⟨hmem, es, hes⟩
      rcases hbuilds (mem_rebuilt.mp hmem).left with ⟨a, ha⟩
      rw [hes] at ha
      cases ha

/-- The result is the artifact of the uncached build of the overridden workspace. -/
theorem ensures_speculate (hpanics : ¬ (∀ u, ∃ a, b.compile u = .compiled a) → panics)
    (hasks : ∀ c, asks ctx c) (overrides : Overrides) (target : ProjectId) :
    Ensures b streams asks panics
      (fun result => Faultless b ctx → target ∈ ctx.graph.ids → ∃ a, result = .ok a ∧
        (ctx.override overrides).uncached b target = .ok a.value)
      (speculate (π := π) ctx target overrides).run := by
  refine (ensures_speculates hasks fun hcrashes => hpanics hcrashes.exists_fault).imp ?_
  intro result hresult hfaultless htarget
  rcases hresult.faultless hfaultless htarget with ⟨a, hok, ha⟩
  cases result with
  | error e => cases hok
  | ok held =>
      cases hok
      exact ⟨held, rfl, ha⟩

/-- The diagnostics are those of that artifact. -/
theorem ensures_speculativeDiagnostics
    (hpanics : ¬ (∀ u, ∃ a, b.compile u = .compiled a) → panics)
    (hasks : ∀ c, asks ctx c) (overrides : Overrides) (target : ProjectId) (s : AnalyzerSet)
    (analyzed : Bool) :
    Ensures b streams asks panics
      (fun result => Faultless b ctx → target ∈ ctx.graph.ids → ∃ a,
        (ctx.override overrides).uncached b target = .ok a ∧ result = collect b a s analyzed)
      (speculativeDiagnostics b ctx target overrides s analyzed).run := by
  refine (ensures_speculatesDiagnostics hasks
    (fun hcrashes => hpanics hcrashes.exists_fault) s analyzed).imp ?_
  rintro result ⟨built, hbuilt, rfl⟩ hfaultless htarget
  rcases hbuilt.faultless hfaultless htarget with ⟨a, rfl, ha⟩
  exact ⟨a, ha, rfl⟩

end

end Plan
end Cache
end Ripple
