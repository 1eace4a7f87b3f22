import Ripple.Proofs.Engine.Preview

/-!
# The reach of a batch

The impacts of a batch are listed for the projects downstream of those that its
edits were recorded for, dependencies first. A project that is not listed keeps its
speculative diagnostics as long as every project whose sources change is listed. If
some project whose sources change is not listed, then a backend that tells sources
apart shows it.
-/

namespace Ripple

open Cache

variable {σ π : Type}

/-- Every file is listed under one id only. -/
def Workspace.Owned (w : Workspace) : Prop :=
  ∀ p ∈ w.projects, ∀ p' ∈ w.projects, ∀ d ∈ p.documents, ∀ d' ∈ p'.documents,
    d.path.same d'.path → p.id = p'.id

/-- Projects whose sources do not change, nor those of anything that they are compiled
against, are built as before. -/
theorem Context.uncached_override_congr {b : Backend π} {ctx : Context}
    {overrides overrides' : Overrides} {P : ProjectId → Prop}
    (hclosed : ∀ {id c}, P id → c ∈ ctx.graph.effectiveDependencies id → P c)
    (hsame : ∀ id p, P id → ctx.workspace.project? id = some p →
      p.override overrides' = p.override overrides) {id : ProjectId} (hid : P id) :
    (ctx.override overrides').uncached b id = (ctx.override overrides).uncached b id := by
  have hgraph : (ctx.override overrides').graph = (ctx.override overrides).graph := rfl
  refine fold_congr (P := P) hgraph hclosed (fun id hid => ?_) _ hid
  rw [override, override, Workspace.project?_override, Workspace.project?_override]
  cases hp : ctx.workspace.project? id with
  | none => rfl
  | some p => rw [Option.map_some, Option.map_some, hsame id p hid hp]

namespace Engine

variable {sv : Services σ π} {streams : Set (List UInt8)} {id : SessionId}
  {e e' : Engine σ π} {s s' : Session}

/-!
# What is listed
-/

theorem nodup_affected (g : Graph) (edited : List ProjectId) : (affected g edited).Nodup :=
  g.nodup_topologicalOrder.filter _

theorem pairwise_affected (g : Graph) (edited : List ProjectId) :
    (affected g edited).Pairwise fun p c => c ∉ g.effectiveDependencies p :=
  g.pairwise_topologicalOrder.filter _

theorem mem_affected_of_effective {g : Graph} {edited : List ProjectId} {p c : ProjectId}
    (hp : p ∈ g.ids) (hc : c ∈ g.effectiveDependencies p) (h : c ∈ affected g edited) :
    p ∈ affected g edited := by
  rcases mem_affected.mp h with ⟨_, q, hq, hbelow⟩
  exact mem_affected.mpr ⟨hp, q, hq, Graph.mem_withDependents_of_effective hc hbelow⟩

theorem project_of_compares {b : Backend π} {overrides : Overrides} {analyzed : Bool}
    {ps : List ProjectId} {found : List Impact}
    (h : List.Forall₂ (Compares b s overrides analyzed) ps found) :
    found.map Impact.project = ps := by
  induction h with
  | nil => rfl
  | cons hfirst _ ih =>
      rcases hfirst with ⟨before, after, _, _, rfl⟩
      rw [List.map_cons, ih]

theorem compares_of_mem {b : Backend π} {overrides : Overrides} {analyzed : Bool}
    {ps : List ProjectId} {found : List Impact}
    (h : List.Forall₂ (Compares b s overrides analyzed) ps found) {i : Impact}
    (hi : i ∈ found) : Compares b s overrides analyzed i.project i := by
  induction h with
  | nil => cases hi
  | cons hfirst _ ih =>
      rcases List.mem_cons.mp hi with rfl | hi
      · rcases hfirst with ⟨before, after, hbefore, hafter, rfl⟩
        exact ⟨before, after, hbefore, hafter, rfl⟩
      · exact ih hi

/-!
# What is not listed
-/

/-- Every project of the graph whose sources change with the pending texts is listed. -/
def Accounts (s s' : Session) (listed : List ProjectId) : Prop :=
  ∀ id ∈ s.graph.ids, ∀ p, s.workspace.project? id = some p →
    p.override s'.overrides ≠ p.override s.overrides → id ∈ listed

/-- A project has the same speculative diagnostics before and after. -/
def Unmoved (sv : Services σ π) (e : Engine σ π) (s : Session) (e' : Engine σ π)
    (s' : Session) (analyzed : Bool) (p : ProjectId) : Prop :=
  ∃ ds, e.Previews sv s s.overrides analyzed p ds ∧
    e'.Previews sv s' s'.overrides analyzed p ds

theorem unmoved_of_accounts (h : Ready sv streams id e s) (h' : Ready sv streams id e' s')
    (hstaged : Staged s s') (hfaultless : sv.backend.Faultless) {edited : List ProjectId}
    (haccounts : Accounts s s' (affected s.graph edited)) {p : ProjectId}
    (hp : p ∈ s.graph.ids) (hunlisted : p ∉ affected s.graph edited) (analyzed : Bool) :
    Unmoved sv e s e' s' analyzed p := by
  have hgraph : s'.graph = s.graph := congrArg Context.graph hstaged.context
  rcases h.previews hfaultless hp s.overrides analyzed with ⟨ds, hpreviews, hds⟩
  rcases h'.previews hfaultless (hgraph.symm ▸ hp) s'.overrides analyzed with
    ⟨ds', hpreviews', hds'⟩
  have hsame : (s.context.override s'.overrides).uncached sv.backend p =
      (s.context.override s.overrides).uncached sv.backend p := by
    refine Context.uncached_override_congr
      (P := fun c => c ∈ s.graph.ids ∧ c ∉ affected s.graph edited) ?_ ?_ ⟨hp, hunlisted⟩
    · rintro q c ⟨hq, hunlisted⟩ hc
      exact ⟨Graph.mem_ids_of_effective hc,
        fun hlisted => hunlisted (mem_affected_of_effective hq hc hlisted)⟩
    · rintro q project ⟨hq, hunlisted⟩ hproject
      by_contra hchanged
      exact hunlisted (haccounts q hq project hproject hchanged)
  rw [hstaged.context, hstaged.analyzers, uncachedListing, hsame, ← uncachedListing, hds] at hds'
  cases hds'
  exact ⟨ds, hpreviews, hpreviews'⟩

theorem accounts_of_unmoved (h : Ready sv streams id e s) (h' : Ready sv streams id e' s')
    (hstaged : Staged s s') (hfaultless : sv.backend.Faultless) (htells : sv.backend.Tells)
    {listed : List ProjectId}
    (hunmoved : ∀ p ∈ s.graph.ids, p ∉ listed → Unmoved sv e s e' s' false p) :
    Accounts s s' listed := by
  intro p hp project hproject hchanged
  by_contra hunlisted
  have hgraph : s'.graph = s.graph := congrArg Context.graph hstaged.context
  rcases hunmoved p hp hunlisted with ⟨ds, hpreviews, hpreviews'⟩
  rcases h.previews hfaultless hp s.overrides false with ⟨ds₁, hpreviews₁, hds⟩
  rcases h'.previews hfaultless (hgraph.symm ▸ hp) s'.overrides false with ⟨ds₂, hpreviews₂, hds'⟩
  cases hpreviews.unique hpreviews₁
  cases hpreviews'.unique hpreviews₂
  rw [hstaged.context] at hds'
  have hover (overrides : Overrides) : (s.context.override overrides).workspace.project? p =
      some (project.override overrides) := by
    rw [Context.override, Workspace.project?_override,
      show s.context.workspace.project? p = _ from hproject]
    rfl
  have hdocuments := htells.documents_eq (hover s'.overrides) (hover s.overrides) hds' hds
  apply hchanged
  rw [Project.override, Project.override]
  exact congrArg (fun ds => { project with documents := ds }) hdocuments

/-!
# Files of one project
-/

/-- A pending text changes only where an edit is recorded for a project with that file. -/
theorem exists_recorded (w : Workspace) (edits : List DocumentEdit) {q : Path}
    (h : (stageAll w edits s).2.overrides.get? q ≠ s.overrides.get? q) :
    ∃ p ∈ w.projects, p.id ∈ (stageAll w edits s).1.filterMap EditResult.project ∧
      ∃ d ∈ p.documents, d.path.same q := by
  induction edits generalizing s with
  | nil => exact absurd rfl h
  | cons edit rest ih =>
      unfold stageAll at h ⊢
      cases hedit : s.stageEdit w edit with
      | error error =>
          simp only [hedit] at h ⊢
          simpa using ih h
      | ok staged =>
          rcases staged with ⟨_, staged⟩
          simp only [hedit] at h ⊢
          rcases Session.stageEdit_eq_ok_iff.mp hedit with ⟨p, d, text, hfound, _, rfl, rfl⟩
          rcases Workspace.mem_documents_of_document? hfound with ⟨hp, hd, _⟩
          by_cases hsame : d.path.same q
          · exact ⟨p, hp, by simp, d, hd, hsame⟩
          · have hstage : (s.stage ⟨p.id, d.path, text⟩).overrides.get? q =
                s.overrides.get? q := by
              simp only [Session.overrides, Session.stage, PathMap.get?_map,
                PathMap.get?_insert, if_neg hsame]
            rw [← hstage] at h
            rcases ih h with ⟨p', hp', hrecorded, hd'⟩
            exact ⟨p', hp', List.mem_cons_of_mem p.id hrecorded, hd'⟩

theorem exists_changed {p : Project} {overrides overrides' : Overrides}
    (h : p.override overrides' ≠ p.override overrides) :
    ∃ d ∈ p.documents, overrides'.get? d.path ≠ overrides.get? d.path := by
  by_contra hnone
  push Not at hnone
  apply h
  rw [Project.override, Project.override]
  congr 1
  refine List.map_congr_left fun d hd => ?_
  rw [Document.override, Document.override, hnone d hd]

theorem accounts_of_owned {edits : List DocumentEdit} (howned : s.workspace.Owned) :
    Accounts s (e.stagedIn s edits).2
      (affected s.graph ((e.stagedIn s edits).1.filterMap EditResult.project)) := by
  intro id hid p hp hchanged
  rcases exists_changed hchanged with ⟨d, hd, hdiffers⟩
  rcases exists_recorded s.workspace edits hdiffers with ⟨owner, howner, hrecorded, d', hd', hsame⟩
  rcases Context.project?_mem hp with ⟨hmem, rfl⟩
  have heq := howned owner howner p hmem d' hd' d hd hsame
  refine mem_affected.mpr ⟨hid, owner.id, hrecorded, ?_⟩
  rw [heq]
  exact Graph.self_mem_withDependents hid

/-!
# The impacts of a batch
-/

/-- The impacts of a batch are those of the projects downstream of its edits. They
miss nothing if every project whose sources change is among these, as it is where
every file belongs to one project. -/
theorem impacts_of_batch (hbegins : Begins sv streams id e s)
    (hfaultless : sv.backend.Faultless) {edits : List DocumentEdit} (hedits : edits ≠ []) :
    ∃ outcome e' s', (applyEdits sv id edits).Returns e outcome e' ∧
      e'.sessions.get? id = some s' ∧
      (outcome.impacts.map Impact.project).Nodup ∧
      (outcome.impacts.map Impact.project ⊆ s.graph.ids) ∧
      ((outcome.impacts.map Impact.project).Pairwise fun p c =>
        c ∉ s.graph.effectiveDependencies p) ∧
      (∀ i ∈ outcome.impacts, Compares sv.backend s s'.overrides
        e.config.edits.includeAnalyzers i.project i) ∧
      (Accounts s s' (outcome.impacts.map Impact.project) →
        ∀ p ∈ s.graph.ids, p ∉ outcome.impacts.map Impact.project →
          ∀ analyzed, Unmoved sv e s e' s' analyzed p) ∧
      (sv.backend.Tells →
        (∀ p ∈ s.graph.ids, p ∉ outcome.impacts.map Impact.project →
          Unmoved sv e s e' s' false p) →
        Accounts s s' (outcome.impacts.map Impact.project)) ∧
      (s.workspace.Owned → Accounts s s' (outcome.impacts.map Impact.project)) := by
  have hready := hbegins.ready
  rcases hready.returns_applyEdits hfaultless hedits with
    ⟨found, e', hreturns, hready', _, hcompares⟩
  have hstaged : Staged s (e.stagedIn s edits).2 :=
    (staged_use s e.clock).trans (staged_stageAll edits rfl hready.use.formed).left
  have hlisted := project_of_compares hcompares
  refine ⟨⟨_, found⟩, e', _, hreturns, hready'.session, ?_⟩
  simp only [hlisted]
  refine ⟨nodup_affected _ _, ?_, pairwise_affected _ _, ?_, ?_, ?_, accounts_of_owned⟩
  · exact fun p hp => (mem_affected.mp hp).left
  · intro i hi
    rcases compares_of_mem hcompares hi with ⟨before, after, hbefore, hafter, hi⟩
    rw [hstaged.context, hstaged.analyzers] at hbefore hafter
    exact ⟨before, after, hbefore, hafter, hi⟩
  · exact fun haccounts p hp hunlisted analyzed =>
      unmoved_of_accounts hready hready' hstaged hfaultless haccounts hp hunlisted analyzed
  · exact fun htells hunmoved =>
      accounts_of_unmoved hready hready' hstaged hfaultless htells hunmoved

/-- For one, of two projects with a file each the one that is not edited is not listed
and keeps its speculative diagnostics. -/
theorem impacts_of_batch_apart : ∃ outcome e' s',
    (applyEdits calm ⟨"s"⟩ [typing]).Returns (singlesEngine apart) outcome e' ∧
      calm.backend.Tells ∧
      ∀ p ∈ (Graph.build (singles apart)).ids, p ∉ outcome.impacts.map Impact.project →
        ∀ analyzed, Unmoved calm (singlesEngine apart) (singlesSession apart) e' s' analyzed p := by
  have hbegins := begins_singles apart (by decide) (by decide +kernel)
  have howned : (singles apart).Owned := by
    unfold Workspace.Owned
    decide +kernel
  rcases impacts_of_batch hbegins faultless_mirror (List.cons_ne_nil typing []) with
    ⟨outcome, e', s', hreturns, _, _, _, _, _, hunmoved, _, haccounts⟩
  exact ⟨outcome, e', s', hreturns, tells_mirror, hunmoved (haccounts howned)⟩

/-- Of two projects that list one file, the second is not listed, and its speculative
diagnostics change. -/
theorem impacts_miss_second : ∃ outcome e',
    Begins calm {stream | stream ∈ singlesStreams} ⟨"s"⟩ (singlesEngine shared)
      (singlesSession shared) ∧
    calm.backend.Faultless ∧
    (applyEdits calm ⟨"s"⟩ [typing]).Returns (singlesEngine shared) outcome e' ∧
    e'.sessions.get? ⟨"s"⟩ = some (typed shared) ∧
    ⟨"b"⟩ ∈ (singlesSession shared).graph.ids ∧
    ⟨"b"⟩ ∉ outcome.impacts.map Impact.project ∧
    (singlesEngine shared).Previews calm (singlesSession shared)
      (singlesSession shared).overrides false ⟨"b"⟩ [finding ⟨"b"⟩ ⟨⟨"/s"⟩, ""⟩] ∧
    e'.Previews calm (typed shared) (typed shared).overrides false ⟨"b"⟩
      [finding ⟨"b"⟩ ⟨⟨"/s"⟩, "x"⟩] ∧
    ¬ Unmoved calm (singlesEngine shared) (singlesSession shared) e' (typed shared) false
      ⟨"b"⟩ := by
  have hbegins := begins_singles shared (by decide) (by decide +kernel)
  rcases hbegins.ready.returns_applyEdits faultless_mirror (List.cons_ne_nil typing []) with
    ⟨found, e', hreturns, hready, _, hcompares⟩
  have hready : Ready calm {stream | stream ∈ singlesStreams} ⟨"s"⟩ e' (typed shared) := hready
  have hp : ⟨"b"⟩ ∈ (singlesSession shared).graph.ids := by decide +kernel
  have hp' : ⟨"b"⟩ ∈ (typed shared).graph.ids := by decide +kernel
  have hunlisted : ⟨"b"⟩ ∉ found.map Impact.project := by
    rw [project_of_compares hcompares]
    decide +kernel
  rcases hbegins.ready.previews faultless_mirror hp (singlesSession shared).overrides false with
    ⟨ds, hpreviews, hds⟩
  rcases hready.previews faultless_mirror hp' (typed shared).overrides false with
    ⟨ds', hpreviews', hds'⟩
  have hover : (singles shared).override (singlesSession shared).overrides = singles shared := by
    decide +kernel
  have hover' : (singles shared).override (typed shared).overrides =
      singles [("a", "/s", "x"), ("b", "/s", "x")] := by decide +kernel
  rw [context_typed] at hds'
  cases hds.symm.trans
    (uncachedListing_override ⟨"s"⟩ hover (p := single ("b", "/s", "")) rfl _)
  cases hds'.symm.trans
    (uncachedListing_override ⟨"s"⟩ hover' (p := single ("b", "/s", "x")) rfl _)
  refine ⟨_, e', hbegins, faultless_mirror, hreturns, hready.session, hp, hunlisted, hpreviews,
    hpreviews', ?_⟩
  rintro ⟨ds, hbefore, hafter⟩
  have hsame := (hbefore.unique hpreviews).trans (hpreviews'.unique hafter)
  revert hsame
  decide

end Engine
end Ripple
