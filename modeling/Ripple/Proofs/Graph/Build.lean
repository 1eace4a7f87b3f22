import Ripple.Graph.Basic

/-!
# What a graph is drawn from

The graph of a workspace depends on the ids and the references of the projects
alone, and its nodes are projects of the workspace.
-/

namespace Ripple

/-- All of a project that has a bearing on the graph. -/
def Project.shape (p : Project) : ProjectId × List ProjectId :=
  (p.id, p.references)

namespace Workspace

theorem map_shape_override (w : Workspace) (overrides : Overrides) :
    (w.override overrides).projects.map Project.shape = w.projects.map Project.shape := by
  rw [override, List.map_map]
  rfl

theorem map_shape_project? (w : Workspace) (id : ProjectId) :
    (w.project? id).map Project.shape =
      (w.projects.map Project.shape).find? fun shape => shape.1 = id := by
  rw [List.find?_map]
  rfl

end Workspace

namespace Graph

theorem build_congr {w w' : Workspace}
    (h : w'.projects.map Project.shape = w.projects.map Project.shape) :
    build w' = build w := by
  have hids : validIds w' = validIds w := by
    have hmap : w'.projects.map Project.id = w.projects.map Project.id := by
      have hfst := congrArg (List.map Prod.fst) h
      rw [List.map_map, List.map_map] at hfst
      exact hfst
    rw [validIds, hmap, validIds]
  have hreferences (w : Workspace) (ids : List ProjectId) (id : ProjectId) :
      (w.project? id).elim [] (referencesOf ids) =
        ((w.project? id).map Project.shape).elim [] fun shape =>
          (shape.2.filter fun r => r ∈ ids ∧ r ≠ shape.1).eraseDups := by
    cases w.project? id <;> rfl
  simp only [build, hids, hreferences, Workspace.map_shape_project?, h]

theorem ids_build (w : Workspace) : (build w).ids = validIds w := by
  simp only [build, ids, List.map_map]
  exact List.map_id _

/-- Every node of a graph that is drawn from a workspace is a project of it. -/
theorem project?_of_mem_ids {w : Workspace} {id : ProjectId} (h : id ∈ (build w).ids) :
    ∃ p, w.project? id = some p := by
  rw [ids_build, validIds, List.mem_eraseDups, List.mem_filter, List.mem_map] at h
  rcases h with ⟨⟨p, hp, rfl⟩, _⟩
  rw [← Option.isSome_iff_exists, Workspace.project?, List.find?_isSome]
  exact ⟨p, hp, decide_eq_true rfl⟩

/-- Nothing depends on anything in a workspace without references. -/
theorem effectiveDependencies_build {w : Workspace} (h : ∀ p ∈ w.projects, p.references = [])
    (id : ProjectId) : (build w).effectiveDependencies id = [] := by
  have hnodes : ∀ n ∈ (build w).nodes, n.references = [] := by
    intro n hn
    rcases List.mem_map.mp hn with ⟨other, _, rfl⟩
    cases hp : w.project? other with
    | none => rfl
    | some p => simp [referencesOf, h p (List.mem_of_find?_eq_some hp)]
  have hreferences : (build w).references id = [] := by
    unfold references node?
    cases hn : (build w).nodes.find? fun n => n.id = id with
    | none => rfl
    | some n => exact hnodes n (List.mem_of_find?_eq_some hn)
  simp [effectiveDependencies, dependencies, hreferences]

end Graph
end Ripple
