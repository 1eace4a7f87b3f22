import Ripple.Proofs.Graph.Closure

/-!
# Effective dependencies

A project never reaches itself along effective dependencies, whatever the
references of the graph are. What they are followed through shrinks with every
one of them, so everything that is worked out for a project from what has been
worked out for its effective dependencies is well defined.
-/

namespace Ripple
namespace Graph

theorem mem_effectiveDependencies {g : Graph} {a c : ProjectId} :
    c ∈ g.effectiveDependencies a ↔ c ∈ g.dependencies a ∧ c ∉ g.withDependents a := by
  simp [effectiveDependencies]

theorem mem_dependencies_of_effective {g : Graph} {a c : ProjectId}
    (h : c ∈ g.effectiveDependencies a) : c ∈ g.dependencies a :=
  (mem_effectiveDependencies.mp h).left

theorem mem_ids_of_effective {g : Graph} {a c : ProjectId}
    (h : c ∈ g.effectiveDependencies a) : c ∈ g.ids :=
  mem_ids_of_mem_dependencies a c (mem_dependencies_of_effective h)

theorem not_reaches_of_effective {g : Graph} {a c : ProjectId}
    (h : c ∈ g.effectiveDependencies a) : ¬ Reaches g.dependencies c a := by
  intro hback
  have hdep := mem_dependencies_of_effective h
  apply (mem_effectiveDependencies.mp h).right
  apply mem_withDependents.mpr
  exact ⟨contains_of_mem_dependencies hdep, reaches_dependents_of_reaches hback⟩

theorem self_mem_withDependents {g : Graph} {id : ProjectId} (h : id ∈ g.ids) :
    id ∈ g.withDependents id :=
  mem_withDependents.mpr ⟨mem_ids_iff_contains.mp h, .refl⟩

/-- What is downstream of a project is closed under depending on it. -/
theorem mem_withDependents_of_effective {g : Graph} {a c q : ProjectId}
    (hc : c ∈ g.effectiveDependencies a) (h : c ∈ g.withDependents q) :
    a ∈ g.withDependents q := by
  rcases mem_withDependents.mp h with ⟨hcontains, hreach⟩
  have hback := mem_dependents_of_mem_dependencies (mem_dependencies_of_effective hc)
  exact mem_withDependents.mpr ⟨hcontains, hreach.tail hback⟩

/-- What a project needs: itself, and all that it depends on. -/
def Needs (g : Graph) : ProjectId → ProjectId → Prop :=
  Relation.ReflTransGen fun id c => c ∈ g.effectiveDependencies id

theorem Needs.mem_ids {g : Graph} {root id : ProjectId} (h : g.Needs root id)
    (hroot : root ∈ g.ids) : id ∈ g.ids := by
  induction h with
  | refl => exact hroot
  | tail _ hc _ => exact mem_ids_of_effective hc

/-!
# Height

The number of projects that a project leads to. It drops along every effective
dependency, and no project leads to more projects than there are.
-/

def height (g : Graph) (id : ProjectId) : Nat :=
  (g.withDependencies id).length

theorem height_lt {g : Graph} {a c : ProjectId}
    (h : c ∈ g.effectiveDependencies a) : g.height c < g.height a := by
  have hdep := mem_dependencies_of_effective h
  have ha : a ∉ g.withDependencies c := by
    intro hmem
    exact not_reaches_of_effective h (mem_withDependencies.mp hmem).right
  have hnodup : (a :: g.withDependencies c).Nodup :=
    List.nodup_cons.mpr ⟨ha, nodup_closure g g.dependencies c⟩
  have hsub : a :: g.withDependencies c ⊆ g.withDependencies a := by
    intro x hx
    have hcontains := contains_of_mem_dependencies hdep
    rcases List.mem_cons.mp hx with rfl | hx
    · exact mem_withDependencies.mpr ⟨hcontains, .refl⟩
    · exact mem_withDependencies.mpr
        ⟨hcontains, .head hdep (mem_withDependencies.mp hx).right⟩
  exact (hnodup.subperm hsub).length_le

theorem height_le (g : Graph) (id : ProjectId) : g.height id ≤ g.projectCount := by
  have hsub : g.withDependencies id ⊆ g.ids := by
    intro x hx
    rcases mem_withDependencies.mp hx with ⟨hcontains, hreach⟩
    cases hreach with
    | refl =>
        exact mem_ids_iff_contains.mpr hcontains
    | tail _ hstep =>
        exact mem_ids_of_mem_dependencies _ _ hstep
  have hle := ((nodup_closure g g.dependencies id).subperm hsub).length_le
  rw [length_ids] at hle
  exact hle

theorem effective_induction {g : Graph} {motive : ProjectId → Prop}
    (step : ∀ id, (∀ c ∈ g.effectiveDependencies id, motive c) → motive id)
    (id : ProjectId) : motive id := by
  induction h : g.height id using Nat.strong_induction_on generalizing id with
  | h n ih =>
      apply step
      intro c hc
      exact ih (g.height c) (h ▸ height_lt hc) c rfl

theorem wellFounded_effective (g : Graph) :
    WellFounded fun c id => c ∈ g.effectiveDependencies id :=
  Subrelation.wf height_lt (measure g.height).wf

theorem acyclic_effective (g : Graph) (id : ProjectId) :
    ¬ Relation.TransGen (fun a c => c ∈ g.effectiveDependencies a) id id := by
  have hlt {a c : ProjectId}
      (h : Relation.TransGen (fun a c => c ∈ g.effectiveDependencies a) a c) :
      g.height c < g.height a := by
    induction h with
    | single hc => exact height_lt hc
    | tail _ hc ih => exact Nat.lt_trans (height_lt hc) ih
  intro h
  exact Nat.lt_irrefl _ (hlt h)

/-!
# Values worked out from those of the effective dependencies
-/

def fold (g : Graph) (f : ProjectId → List (ProjectId × β) → β) (id : ProjectId) : β :=
  f id ((g.effectiveDependencies id).attach.map fun c => (c.1, g.fold f c.1))
termination_by g.height id
decreasing_by exact height_lt c.2

theorem fold_eq (g : Graph) (f : ProjectId → List (ProjectId × β) → β) (id : ProjectId) :
    g.fold f id = f id ((g.effectiveDependencies id).map fun c => (c, g.fold f c)) := by
  rw [fold]
  congr 1
  exact List.attach_map_val (f := fun c => (c, g.fold f c))

end Graph
end Ripple
