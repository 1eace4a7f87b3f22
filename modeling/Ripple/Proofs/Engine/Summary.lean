import Ripple.Proofs.Engine.Operations
import Ripple.Proofs.Graph.Cycles
import Ripple.Proofs.Repetition
import Ripple.Proofs.Session.Reachable

/-!
# The summary of a graph

The records of a summary are made from the list of projects, all else from the graph. The
graph has a node for each valid id, so the two agree where no valid id is repeated, and
otherwise it takes the first record of each id for them to agree.
-/

namespace Ripple

variable {w : Workspace}

namespace Graph

theorem isEmpty_dependencies {id : ProjectId} (hid : id ∈ validIds w) :
    ((build w).dependencies id).isEmpty = (nodeOf w id).references.isEmpty := by
  have hmem (c : ProjectId) : c ∈ (build w).dependencies id ↔ c ∈ (nodeOf w id).references := by
    rw [mem_dependencies_build, refers_iff]
    exact and_iff_right hid
  rw [Bool.eq_iff_iff, List.isEmpty_iff, List.isEmpty_iff, List.eq_nil_iff_forall_not_mem,
    List.eq_nil_iff_forall_not_mem]
  exact forall_congr' fun c => not_congr (hmem c)

theorem leaves_build :
    (build w).leaves = (build w).ids.filter fun id => ((build w).dependencies id).isEmpty := by
  rw [leaves, nodes_build, List.filter_map, List.map_map, ids_build]
  refine (List.map_id _).trans (List.filter_congr fun id hid => ?_)
  exact (isEmpty_dependencies hid).symm

/-- Among the projects with valid ids, all of each id have the same node. -/
theorem ids_filter_contains :
    (w.projects.filter fun p => (build w).contains p.id).map Project.id =
      (w.projects.map Project.id).filter ProjectId.isValid := by
  rw [List.filter_map]
  congr 1
  refine List.filter_congr fun p hp => ?_
  rw [Bool.eq_iff_iff, ← mem_ids_iff_contains, ids_build, mem_validIds]
  exact and_iff_right ⟨p, hp, rfl⟩

theorem mem_ids_of_mem_cycles {members : List ProjectId} (h : members ∈ (build w).cycles)
    {id : ProjectId} (hid : id ∈ members) : id ∈ (build w).ids := by
  rcases (mem_cycles.mp h).left with ⟨id', _, rfl⟩
  exact (group_sublist (build w) id').mem hid

end Graph

namespace Engine

open Cache

/-!
# Summaries
-/

namespace GraphSummary

/-- Every id that stands in a summary, but for the records' own. -/
def mentioned (s : GraphSummary) : List ProjectId :=
  s.projects.flatMap ProjectSummary.references ++ s.projects.flatMap ProjectSummary.dependents ++
    s.topologicalOrder ++ s.leaves ++ s.roots ++ s.cycles.flatten

/-- The summary gives an account of the graph of the workspace. -/
structure Describes (s : GraphSummary) (w : Workspace) : Prop where
  /-- Each project of the graph has one record, in the order of the projects. -/
  records : s.projects.map ProjectSummary.id = (Graph.build w).ids
  refers : ∀ p ∈ s.projects, ∀ c, c ∈ p.references ↔ Graph.Refers w p.id c
  converse : ∀ p ∈ s.projects, ∀ q ∈ s.projects, q.id ∈ p.references ↔ p.id ∈ q.dependents
  once : ∀ id ∈ s.mentioned, (s.projects.countP fun p => p.id = id) = 1
  leaves : s.leaves =
    (s.projects.filter fun p => p.references.isEmpty).map ProjectSummary.id
  roots : s.roots =
    (s.projects.filter fun p => p.dependents.isEmpty).map ProjectSummary.id
  order : s.topologicalOrder.Perm (s.projects.map ProjectSummary.id)

/-- The summary with only the first record of each id. -/
def firsts (s : GraphSummary) (g : Graph) : GraphSummary :=
  { s with projects := g.ids.filterMap fun id => s.projects.find? fun p => p.id = id }

/-- Records show the neighbours of their projects. -/
theorem mem_projects_of {g : Graph} {p : ProjectSummary} (h : p ∈ (of w g).projects) :
    p.references = g.dependencies p.id ∧ p.dependents = g.dependents p.id ∧ p.id ∈ g.ids := by
  rcases List.mem_map.mp h with ⟨q, hq, rfl⟩
  exact ⟨rfl, rfl, Graph.mem_ids_iff_contains.mpr (List.mem_filter.mp hq).right⟩

/-- Records that show the neighbours of their projects can be chosen by them. -/
theorem map_filter_isEmpty {records : List ProjectSummary}
    {shown : ProjectSummary → List ProjectId} {next : ProjectId → List ProjectId}
    (h : ∀ p ∈ records, shown p = next p.id) :
    (records.filter fun p => (shown p).isEmpty).map ProjectSummary.id =
      (records.map ProjectSummary.id).filter fun id => (next id).isEmpty := by
  rw [List.filter_map]
  congr 1
  exact List.filter_congr fun p hp => by rw [Function.comp_apply, h p hp]

theorem mem_ids_of_mentioned {records : List ProjectSummary}
    (hrecords : ∀ p ∈ records, p ∈ (of w (.build w)).projects) {id : ProjectId}
    (h : id ∈ ({ of w (.build w) with projects := records } : GraphSummary).mentioned) :
    id ∈ (Graph.build w).ids := by
  simp only [mentioned, List.mem_append, List.mem_flatMap, List.mem_flatten] at h
  rcases h with ((((⟨p, hp, hid⟩ | ⟨p, hp, hid⟩) | horder) | hleaf) | hroot) | hcycle
  · rw [(mem_projects_of (hrecords p hp)).left] at hid
    exact Graph.mem_ids_of_mem_dependencies _ _ hid
  · rw [(mem_projects_of (hrecords p hp)).right.left] at hid
    exact Graph.mem_ids_of_mem_dependents _ _ hid
  · exact Graph.mem_topologicalOrder.mp horder
  · change id ∈ (Graph.build w).leaves at hleaf
    rw [Graph.leaves_build] at hleaf
    exact (List.mem_filter.mp hleaf).left
  · exact (List.mem_filter.mp hroot).left
  · rcases hcycle with ⟨members, hmembers, hid⟩
    exact Graph.mem_ids_of_mem_cycles hmembers hid

/-- It is enough that the records are those of the graph's projects, each once. -/
theorem describes_of_records {records : List ProjectSummary}
    (hrecords : ∀ p ∈ records, p ∈ (of w (.build w)).projects)
    (hids : records.map ProjectSummary.id = (Graph.build w).ids) :
    ({ of w (.build w) with projects := records } : GraphSummary).Describes w where
  records := hids
  refers p hp c := by
    rw [(mem_projects_of (hrecords p hp)).left]
    exact Graph.mem_dependencies_build
  converse p hp q hq := by
    rw [(mem_projects_of (hrecords p hp)).left, (mem_projects_of (hrecords q hq)).right.left,
      Graph.mem_dependencies_build, Graph.mem_dependents_build]
  once id hid := by
    have hmem := mem_ids_of_mentioned hrecords hid
    have hcount := List.count_eq_one_of_mem (Graph.nodup_ids_build w) hmem
    rw [← hids, List.count, List.countP_map] at hcount
    rw [← hcount]
    exact List.countP_congr fun p _ => by simp
  leaves := by
    rw [map_filter_isEmpty fun p hp => (mem_projects_of (hrecords p hp)).left, hids]
    exact Graph.leaves_build
  roots := by
    rw [map_filter_isEmpty fun p hp => (mem_projects_of (hrecords p hp)).right.left, hids]
    rfl
  order := by
    rw [hids]
    refine (List.perm_ext_iff_of_nodup (Graph.nodup_topologicalOrder _)
      (Graph.nodup_ids_build w)).mpr fun id => ?_
    exact Graph.mem_topologicalOrder

/-- The records are those of all projects with valid ids. -/
theorem map_id_projects :
    (of w (.build w)).projects.map ProjectSummary.id =
      (w.projects.map Project.id).filter ProjectId.isValid := by
  rw [← Graph.ids_filter_contains, of, List.map_map]
  rfl

theorem firsts_describes (w : Workspace) : ((of w (.build w)).firsts (.build w)).Describes w := by
  apply describes_of_records
  · intro p hp
    rcases List.mem_filterMap.mp hp with ⟨id, _, hfind⟩
    exact List.mem_of_find?_eq_some hfind
  · rw [List.map_filterMap]
    conv_rhs => rw [← List.filterMap_some (l := (Graph.build w).ids)]
    refine List.filterMap_congr fun id hid => ?_
    have hvalid : id ∈ (of w (.build w)).projects.map ProjectSummary.id := by
      rw [Graph.ids_build, Graph.validIds, List.mem_eraseDups] at hid
      rwa [map_id_projects]
    rcases List.mem_map.mp hvalid with ⟨p, hp, hpid⟩
    cases hq : (of w (.build w)).projects.find? fun p => p.id = id with
    | none => exact absurd (decide_eq_true hpid) (List.find?_eq_none.mp hq p hp)
    | some q =>
        have hqid : decide (q.id = id) = true :=
          List.find?_some (p := fun p : ProjectSummary => decide (p.id = id)) hq
        exact congrArg some (of_decide_eq_true hqid)

/-- The summary is in order as it is exactly if no valid id is repeated. -/
theorem describes_iff :
    (of w (.build w)).Describes w ↔
      ((w.projects.map Project.id).filter ProjectId.isValid).Nodup := by
  rw [← map_id_projects]
  constructor
  · intro h
    rw [h.records]
    exact Graph.nodup_ids_build w
  · intro hnodup
    apply describes_of_records fun p hp => hp
    rw [Graph.ids_build, Graph.validIds, ← map_id_projects]
    exact (eraseDups_of_nodup hnodup).symm

end GraphSummary

/-!
# The operation
-/

variable {σ π : Type} {id : SessionId} {s : Session} {e : Engine σ π}

theorem returns_graphSummary (hs : e.sessions.get? id = some s) :
    (graphSummary id).Returns e (.of s.workspace s.graph)
      (e.setSession { s with lastAccess := e.clock }) := by
  unfold graphSummary
  refine Operation.returns_bind_iff.mpr ⟨_, _, Operation.returns_use_iff.mpr ⟨s, hs, rfl, rfl⟩, ?_⟩
  exact Operation.returns_pure_iff.mpr ⟨rfl, rfl⟩

/-- Whatever has become of a session, its summary has a record for each of its projects with a
valid id, in their order. With the first record of each id alone it describes the graph of
the workspace, and as it is it does so exactly if no valid id is repeated. -/
theorem graph_described (hs : e.sessions.get? id = some s) (hreach : s.Reachable) :
    ∃ summary,
      (graphSummary id).Returns e summary (e.setSession { s with lastAccess := e.clock }) ∧
      summary.projects.map ProjectSummary.id =
        (s.workspace.projects.map Project.id).filter ProjectId.isValid ∧
      (summary.firsts (.build s.workspace)).Describes s.workspace ∧
      (summary.Describes s.workspace ↔
        ((s.workspace.projects.map Project.id).filter ProjectId.isValid).Nodup) := by
  refine ⟨_, returns_graphSummary hs, ?_⟩
  rw [hreach.formed.graph]
  exact ⟨GraphSummary.map_id_projects, GraphSummary.firsts_describes _,
    GraphSummary.describes_iff⟩

/-!
# Two projects of one id
-/

/-- A project that refers to others, with nothing to compile. -/
def bare (id : String) (references : List ProjectId) : Project :=
  ⟨⟨id⟩, id, [], references, [], .empty⟩

/-- The second project has the id of the first. -/
def namesakes : Workspace :=
  ⟨⟨"/"⟩, [bare "a" [], bare "a" [], bare "b" [⟨"a"⟩]]⟩

/-- A session in which a workspace has been loaded, and nothing else has been done. -/
def loaded (w : Workspace) : Session :=
  .start ⟨"s"⟩ ⟨"/"⟩ .workspace (.ofNames []) w 0

def hosting (w : Workspace) : Engine Unit Unit :=
  (Engine.new .default () true).setSession (loaded w)

theorem reachable_loaded (w : Workspace) : (loaded w).Reachable :=
  ⟨_, _, _, _, _, _, .refl⟩

theorem get?_hosting (w : Workspace) : (hosting w).sessions.get? ⟨"s"⟩ = some (loaded w) :=
  Table.get?_insert_self ..

/-- Two projects on a cycle, the second of which refers to itself as well, and one with a
blank id. -/
def tangle : Workspace :=
  ⟨⟨"/"⟩, [bare "a" [⟨"b"⟩], bare " " [⟨"a"⟩], bare "b" [⟨"a"⟩, ⟨"b"⟩]]⟩

/-- For one, their summary is in order as it is. -/
theorem graph_described_tangle :
    ∃ summary e, (graphSummary ⟨"s"⟩).Returns (hosting tangle) summary e ∧
      summary.projects.map ProjectSummary.id = [⟨"a"⟩, ⟨"b"⟩] ∧ summary.Describes tangle := by
  rcases graph_described (get?_hosting tangle) (reachable_loaded tangle) with
    ⟨summary, hreturns, hids, _, hiff⟩
  have hvalid : ((loaded tangle).workspace.projects.map Project.id).filter ProjectId.isValid =
      [⟨"a"⟩, ⟨"b"⟩] := by
    decide +kernel
  rw [hvalid] at hids hiff
  exact ⟨summary, _, hreturns, hids, hiff.mpr (by decide)⟩

/-- A project that is listed twice has two records, though it is in the graph once. -/
theorem namesakes_recorded_twice :
    ∃ summary e, (graphSummary ⟨"s"⟩).Returns (hosting namesakes) summary e ∧
      (Graph.build namesakes).ids = [⟨"a"⟩, ⟨"b"⟩] ∧
      summary.projects.map ProjectSummary.id = [⟨"a"⟩, ⟨"a"⟩, ⟨"b"⟩] ∧
      ¬ summary.Describes namesakes := by
  have hids : (Graph.build namesakes).ids = [⟨"a"⟩, ⟨"b"⟩] := by decide +kernel
  have hrecords : (GraphSummary.of namesakes (.build namesakes)).projects.map ProjectSummary.id =
      [⟨"a"⟩, ⟨"a"⟩, ⟨"b"⟩] := by decide +kernel
  refine ⟨_, _, returns_graphSummary (get?_hosting namesakes), hids, hrecords, ?_⟩
  intro h
  have hsame := hrecords.symm.trans (h.records.trans hids)
  revert hsame
  decide

end Engine
end Ripple
