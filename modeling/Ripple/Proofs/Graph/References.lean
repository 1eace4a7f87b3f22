import Ripple.Proofs.Graph.Build
import Ripple.Proofs.Graph.Effective

/-!
# References and the graph

The graph of a workspace has an edge for every reference of a valid project to
another one, and no other edge. A reference is kept as an effective dependency
unless the other project leads back, so nothing is lost as long as there are no
cycles.
-/

namespace Ripple
namespace Graph

theorem mem_validIds {w : Workspace} {id : ProjectId} :
    id ∈ validIds w ↔ (∃ p ∈ w.projects, p.id = id) ∧ id.isValid := by
  simp [validIds]

/-- The first project of one id lists another, and both are nodes. -/
def Refers (w : Workspace) (a c : ProjectId) : Prop :=
  a ∈ validIds w ∧ c ∈ validIds w ∧ c ≠ a ∧ ∃ p, w.project? a = some p ∧ c ∈ p.references

/-- The node of an id. -/
def nodeOf (w : Workspace) (id : ProjectId) : Node :=
  ⟨id, (w.project? id).elim [] (referencesOf (validIds w))⟩

theorem nodes_build (w : Workspace) : (build w).nodes = (validIds w).map (nodeOf w) :=
  rfl

theorem refers_iff {w : Workspace} {a c : ProjectId} :
    Refers w a c ↔ a ∈ validIds w ∧ c ∈ (nodeOf w a).references := by
  unfold Refers nodeOf
  cases hp : w.project? a with
  | none => simp
  | some p =>
      have hid : p.id = a := by
        simpa [Workspace.project?] using List.find?_some hp
      simp only [Option.elim, referencesOf, List.mem_eraseDups, List.mem_filter, hid,
        Option.some.injEq, exists_eq_left', decide_eq_true_eq]
      tauto

theorem references_build {w : Workspace} {a : ProjectId} (h : a ∈ validIds w) :
    (build w).references a = (nodeOf w a).references := by
  have hcontains : (build w).contains a := mem_ids_iff_contains.mp (by rwa [ids_build])
  rcases Option.isSome_iff_exists.mp hcontains with ⟨n, hn⟩
  have hid : n.id = a := by
    simpa using List.find?_some hn
  rcases List.mem_map.mp (List.mem_of_find?_eq_some hn) with ⟨id, _, rfl⟩
  rw [references, hn, ← hid]
  rfl

theorem mem_dependencies_build {w : Workspace} {a c : ProjectId} :
    c ∈ (build w).dependencies a ↔ Refers w a c := by
  constructor
  · intro h
    have ha : a ∈ validIds w := by
      rw [← ids_build, mem_ids_iff_contains]
      exact contains_of_mem_dependencies h
    have href := (mem_dependencies.mp h).right
    rw [references_build ha] at href
    exact refers_iff.mpr ⟨ha, href⟩
  · intro h
    rcases refers_iff.mp h with ⟨ha, href⟩
    rw [mem_dependencies, ids_build, references_build ha]
    exact ⟨h.right.left, href⟩

theorem mem_dependents_build {w : Workspace} {a c : ProjectId} :
    a ∈ (build w).dependents c ↔ Refers w a c := by
  simp only [dependents, nodes_build, List.mem_map, List.mem_filter, decide_eq_true_eq]
  constructor
  · rintro ⟨n, ⟨⟨id, hid, rfl⟩, hc⟩, rfl⟩
    exact refers_iff.mpr ⟨hid, hc⟩
  · intro h
    rcases refers_iff.mp h with ⟨ha, hc⟩
    exact ⟨nodeOf w a, ⟨⟨a, ha, rfl⟩, hc⟩, rfl⟩

/-- A project of the graph is downstream of those that it reaches. -/
theorem mem_withDependents_build {w : Workspace} {a c : ProjectId} :
    a ∈ (build w).withDependents c ↔
      c ∈ validIds w ∧ Relation.ReflTransGen (Refers w) a c := by
  rw [mem_withDependents, ← mem_ids_iff_contains, ids_build]
  have hback : (fun a c => c ∈ (build w).dependents a) = Function.swap (Refers w) := by
    funext c a
    exact propext mem_dependents_build
  rw [Reaches, hback, Relation.reflTransGen_swap]

/-- A reference is effective if no way leads back. -/
theorem mem_effectiveDependencies_build {w : Workspace} {a c : ProjectId} :
    c ∈ (build w).effectiveDependencies a ↔
      Refers w a c ∧ ¬ Relation.ReflTransGen (Refers w) c a := by
  rw [mem_effectiveDependencies, mem_dependencies_build, mem_withDependents_build]
  constructor
  · rintro ⟨href, hnot⟩
    exact ⟨href, fun hback => hnot ⟨href.left, hback⟩⟩
  · rintro ⟨href, hnot⟩
    exact ⟨href, fun hback => hnot hback.right⟩

theorem effectiveDependencies_of_acyclic {w : Workspace}
    (hacyclic : ∀ id, ¬ Relation.TransGen (Refers w) id id) (a : ProjectId) :
    (build w).effectiveDependencies a = (build w).dependencies a := by
  rw [effectiveDependencies, List.filter_eq_self]
  intro c hc
  have href := mem_dependencies_build.mp hc
  have hnot : c ∉ (build w).withDependents a := by
    intro h
    have hback := (mem_withDependents_build.mp h).right
    exact hacyclic a (Relation.TransGen.head' href hback)
  exact decide_eq_true hnot

/-- What is kept of the references of a workspace. -/
structure Untangles (w : Workspace) (g : Graph) : Prop where
  dependencies : ∀ a c, c ∈ g.dependencies a ↔ Refers w a c
  acyclic : ∀ id, ¬ Relation.TransGen (fun a c => c ∈ g.effectiveDependencies a) id id
  kept : ∀ a c, c ∈ g.effectiveDependencies a ↔
    Refers w a c ∧ ¬ Relation.ReflTransGen (Refers w) c a
  all_kept : (∀ id, ¬ Relation.TransGen (Refers w) id id) →
    ∀ a, g.effectiveDependencies a = g.dependencies a

theorem untangles_build (w : Workspace) : Untangles w (.build w) where
  dependencies _ _ := mem_dependencies_build
  acyclic := acyclic_effective (.build w)
  kept _ _ := mem_effectiveDependencies_build
  all_kept := effectiveDependencies_of_acyclic

end Graph
end Ripple
