import Ripple.Proofs.Graph.Groups
import Ripple.Proofs.Repetition

/-!
# How graphs are drawn

A graph is drawn in two passes over the projects of its workspace. The first makes nodes of
their ids and the second wires their references, and each of them keeps to the first
project of an id on its own. What comes of it is a simple graph, in which whatever is
malformed in the workspace has no part.
-/

namespace Ripple

/-!
# What is well formed in a workspace
-/

namespace Workspace

/-- The projects that stand for their ids: the first ones of all ids that are not blank. -/
def leading (w : Workspace) : List Project :=
  (firstsBy Project.id w.projects).filter fun p => p.id.isValid

end Workspace

/-- The project with each reference to another known project once. -/
def Project.pruned (known : List ProjectId) (p : Project) : Project :=
  { p with references := (firstsBy (fun r => r) p.references).filter fun r => r ∈ known ∧ r ≠ p.id }

namespace Workspace

/-- The workspace without blank ids, without projects whose ids stand before, and without
references that are unknown, repeated or to the project itself. -/
def pruned (w : Workspace) : Workspace :=
  { w with projects := w.leading.map (Project.pruned (w.leading.map Project.id)) }

/-- No id is blank or repeated, and no reference is unknown, repeated or to the project
itself. -/
structure Tidy (w : Workspace) : Prop where
  valid : ∀ p ∈ w.projects, p.id.isValid
  distinct : (w.projects.map Project.id).Nodup
  known : ∀ p ∈ w.projects, ∀ r ∈ p.references, r ≠ p.id ∧ ∃ q ∈ w.projects, q.id = r
  once : ∀ p ∈ w.projects, p.references.Nodup

variable {w : Workspace}

theorem map_id_leading (w : Workspace) : w.leading.map Project.id = Graph.validIds w := by
  have hfilter : w.leading.map Project.id =
      ((firstsBy Project.id w.projects).map Project.id).filter ProjectId.isValid :=
    (List.filter_map (f := Project.id) (p := ProjectId.isValid)).symm
  rw [hfilter, map_firstsBy, filter_eraseDups, Graph.validIds]

theorem find?_leading {id : ProjectId} (hid : id.isValid) :
    w.leading.find? (fun p => p.id = id) = w.project? id := by
  rw [leading, List.find?_filter, project?, ← find?_firstsBy]
  congr 1
  funext p
  by_cases hp : p.id = id
  · simp [hp, hid]
  · simp [hp]

theorem nodup_map_id_leading (w : Workspace) : (w.leading.map Project.id).Nodup := by
  rw [map_id_leading]
  exact Graph.nodup_eraseDups _

/-- A project that stands for its id is the one that is found by it. -/
theorem mem_leading {p : Project} :
    p ∈ w.leading ↔ p.id.isValid ∧ w.project? p.id = some p := by
  constructor
  · intro hp
    have hvalid : p.id.isValid := (List.mem_filter.mp hp).right
    refine ⟨hvalid, ?_⟩
    rw [← find?_leading hvalid]
    cases hfound : w.leading.find? fun q => q.id = p.id with
    | none =>
        exact absurd (decide_eq_true rfl) (List.find?_eq_none.mp hfound p hp)
    | some q =>
        have hid : q.id = p.id := by simpa using List.find?_some hfound
        exact congrArg some (List.inj_on_of_nodup_map (nodup_map_id_leading w)
          (List.mem_of_find?_eq_some hfound) hp hid)
  · intro hp
    have hfound := hp.right
    rw [← find?_leading hp.left] at hfound
    exact List.mem_of_find?_eq_some hfound

theorem references_pruned (known : List ProjectId) (p : Project) :
    (p.pruned known).references = Graph.referencesOf known p := by
  have hfirsts : firstsBy (fun r => r) p.references = p.references.eraseDups := by
    have hmap := map_firstsBy (fun r : ProjectId => r) p.references
    rwa [List.map_id_fun'] at hmap
  rw [Project.pruned, hfirsts, filter_eraseDups, Graph.referencesOf]

theorem map_id_pruned (w : Workspace) :
    w.pruned.projects.map Project.id = w.leading.map Project.id := by
  rw [pruned, List.map_map]
  rfl

theorem tidy_pruned (w : Workspace) : w.pruned.Tidy where
  valid p hp := by
    rcases List.mem_map.mp hp with ⟨q, hq, rfl⟩
    exact (mem_leading.mp hq).left
  distinct := by
    rw [map_id_pruned]
    exact nodup_map_id_leading w
  known p hp r hr := by
    rcases List.mem_map.mp hp with ⟨q, _, rfl⟩
    have hr' := of_decide_eq_true (List.mem_filter.mp hr).right
    have hmem := hr'.left
    rw [← map_id_pruned] at hmem
    exact ⟨hr'.right, List.mem_map.mp hmem⟩
  once p hp := by
    rcases List.mem_map.mp hp with ⟨q, _, rfl⟩
    rw [references_pruned]
    exact Graph.nodup_eraseDups _

end Workspace

/-!
# Edges
-/

namespace Graph

/-- The references of all nodes, as pairs. -/
def edges (g : Graph) : List (ProjectId × ProjectId) :=
  g.nodes.flatMap fun n => n.references.map fun r => (n.id, r)

/-- The edges from a node are its references. -/
theorem map_filter_edges {g : Graph} (hnodup : g.ids.Nodup) {n : Node} (hn : n ∈ g.nodes) :
    (g.edges.filter fun edge => edge.1 = n.id).map Prod.snd = n.references := by
  have hnone {m : Node} (hm : m.id ≠ n.id) :
      (m.references.map fun r => (m.id, r)).filter (fun edge => edge.1 = n.id) = [] := by
    rw [List.filter_eq_nil_iff]
    intro edge hedge
    rcases List.mem_map.mp hedge with ⟨r, _, rfl⟩
    simpa using hm
  have hall : (n.references.map fun r => (n.id, r)).filter (fun edge => edge.1 = n.id) =
      n.references.map fun r => (n.id, r) := by
    rw [List.filter_eq_self]
    intro edge hedge
    rcases List.mem_map.mp hedge with ⟨r, _, rfl⟩
    exact decide_eq_true rfl
  have hback : (n.references.map fun r => (n.id, r)).map Prod.snd = n.references := by
    rw [List.map_map]
    exact List.map_id _
  obtain ⟨nodes⟩ := g
  unfold edges
  rw [List.filter_flatMap]
  induction nodes with
  | nil => cases hn
  | cons m nodes ih =>
      rcases List.nodup_cons.mp hnodup with ⟨hm, hnodup'⟩
      rw [List.flatMap_cons, List.map_append]
      rcases List.mem_cons.mp hn with rfl | hn
      · -- No other node has the id, so nothing is added to the references of this one.
        have hrest : (nodes.flatMap fun m =>
            (m.references.map fun r => (m.id, r)).filter fun edge => edge.1 = n.id) = [] := by
          rw [List.flatMap_eq_nil_iff]
          intro m hmem
          exact hnone fun heq => hm (heq ▸ List.mem_map_of_mem hmem)
        rw [hrest, hall, List.map_nil, List.append_nil, hback]
      · have hne : m.id ≠ n.id := fun heq => hm (heq ▸ List.mem_map_of_mem hn)
        rw [hnone hne, List.map_nil, List.nil_append]
        exact ih hnodup' hn

theorem mem_edges_build {w : Workspace} {a c : ProjectId} :
    (a, c) ∈ (build w).edges ↔ Refers w a c := by
  rw [refers_iff, edges, nodes_build, List.mem_flatMap]
  constructor
  · intro h
    rcases h with ⟨n, hn, hc⟩
    rcases List.mem_map.mp hn with ⟨id, hid, rfl⟩
    rcases List.mem_map.mp hc with ⟨r, hr, heq⟩
    cases heq
    exact ⟨hid, hr⟩
  · intro h
    exact ⟨nodeOf w a, List.mem_map_of_mem h.left, List.mem_map_of_mem h.right⟩

theorem nodup_edges_build (w : Workspace) : (build w).edges.Nodup := by
  have hpairs (n : Node) (hn : n.references.Nodup) :
      (n.references.map fun r => (n.id, r)).Nodup :=
    hn.map fun _ _ heq => (Prod.mk.inj heq).right
  rw [edges, List.nodup_flatMap]
  constructor
  · intro n hn
    rcases List.mem_map.mp hn with ⟨id, _, rfl⟩
    apply hpairs
    cases w.project? id with
    | none => exact List.nodup_nil
    | some p => exact nodup_eraseDups _
  · have hdistinct := List.pairwise_map.mp (nodup_ids_build w)
    refine hdistinct.imp fun hne edge hedge hedge' => ?_
    rcases List.mem_map.mp hedge with ⟨r, _, rfl⟩
    rcases List.mem_map.mp hedge' with ⟨r', _, heq⟩
    exact hne (congrArg Prod.fst heq).symm

/-- Edges are drawn from the projects that stand for their ids, in their order. -/
theorem edges_build (w : Workspace) :
    (build w).edges =
      w.leading.flatMap fun p => (referencesOf (validIds w) p).map fun r => (p.id, r) := by
  have hnodes : (validIds w).map (nodeOf w) = w.leading.map fun p => nodeOf w p.id := by
    rw [← Workspace.map_id_leading, List.map_map]
    rfl
  rw [edges, nodes_build, hnodes, List.flatMap_map]
  apply List.flatMap_congr
  intro p hp
  have hfound := (Workspace.mem_leading.mp hp).right
  simp only [nodeOf, hfound, Option.elim]

end Graph

/-!
# The two passes
-/

/-- A graph on its way: its nodes, those of them that have been wired, and its edges, each
in the order in which they came. -/
structure Drawing where
  nodes : List ProjectId
  wired : List ProjectId
  edges : List (ProjectId × ProjectId)

namespace Drawing

def enlist (d : Drawing) (p : Project) : Drawing :=
  if !p.id.isValid then d
  else if p.id ∈ d.nodes then d
  else { d with nodes := d.nodes ++ [p.id] }

def connect (source : ProjectId) (d : Drawing) (target : ProjectId) : Drawing :=
  if target ∉ d.nodes then d
  else if target = source then d
  else if (source, target) ∈ d.edges then d
  else { d with edges := d.edges ++ [(source, target)] }

def wire (d : Drawing) (p : Project) : Drawing :=
  if p.id ∉ d.nodes then d
  else if p.id ∈ d.wired then d
  else p.references.foldl (connect p.id) { d with wired := d.wired ++ [p.id] }

def ofWorkspace (w : Workspace) : Drawing :=
  w.projects.foldl wire (w.projects.foldl enlist ⟨[], [], []⟩)

def graph (d : Drawing) : Graph :=
  ⟨d.nodes.map fun id => ⟨id, (d.edges.filter fun edge => edge.1 = id).map Prod.snd⟩⟩

/-- The first pass has a node for each valid id that it has come to. -/
theorem foldl_enlist (ps : List Project) :
    ps.foldl enlist ⟨[], [], []⟩ =
      ⟨((ps.map Project.id).filter ProjectId.isValid).eraseDups, [], []⟩ := by
  induction ps using List.reverseRecOn with
  | nil => rfl
  | append_singleton ps p ih =>
      rw [List.foldl_append, ih, List.foldl_cons, List.foldl_nil, List.map_append,
        List.filter_append, List.map_singleton]
      unfold enlist
      cases hp : p.id.isValid with
      | false => simp [hp]
      | true =>
          rw [List.filter_cons_of_pos hp, List.filter_nil, eraseDups_concat]
          by_cases hmem : p.id ∈ (ps.map Project.id).filter ProjectId.isValid
          · have hnode := List.mem_eraseDups.mpr hmem
            simp [hnode, hmem]
          · have hnode := fun h => hmem (List.mem_eraseDups.mp h)
            simp only [Bool.not_true, Bool.false_eq_true, if_false, if_neg hnode, if_neg hmem]

/-- Of the edges from a source that is new, just those that are added are there. -/
theorem mem_edges_concat {edges : List (ProjectId × ProjectId)} {source : ProjectId}
    (hsource : ∀ edge ∈ edges, edge.1 ≠ source) (added : List ProjectId) (target : ProjectId) :
    (source, target) ∈ edges ++ added.eraseDups.map (fun r => (source, r)) ↔ target ∈ added := by
  rw [List.mem_append]
  constructor
  · intro h
    rcases h with h | h
    · exact (hsource (source, target) h rfl).elim
    · rcases List.mem_map.mp h with ⟨r, hr, heq⟩
      cases heq
      exact List.mem_eraseDups.mp hr
  · intro h
    exact .inr (List.mem_map_of_mem (List.mem_eraseDups.mpr h))

/-- Wiring a project adds each of its references to another node once. -/
theorem foldl_connect (d : Drawing) (source : ProjectId)
    (hsource : ∀ edge ∈ d.edges, edge.1 ≠ source) (targets : List ProjectId) :
    targets.foldl (connect source) d =
      { d with edges := d.edges ++
        ((targets.filter fun r => r ∈ d.nodes ∧ r ≠ source).eraseDups.map fun r => (source, r)) } := by
  induction targets using List.reverseRecOn with
  | nil => simp
  | append_singleton targets target ih =>
      rw [List.foldl_append, ih, List.foldl_cons, List.foldl_nil, List.filter_append]
      unfold connect
      by_cases hkept : target ∈ d.nodes ∧ target ≠ source
      · have hedge := mem_edges_concat hsource
          (targets.filter fun r => r ∈ d.nodes ∧ r ≠ source) target
        have hone : ([target].filter fun r => r ∈ d.nodes ∧ r ≠ source) = [target] := by
          simp [hkept]
        rw [if_neg (not_not.mpr hkept.left), if_neg hkept.right, if_congr hedge rfl rfl, hone,
          eraseDups_concat]
        split
        · rw [List.append_nil]
        · rw [List.map_append, List.append_assoc]
          rfl
      · have hnone : ([target].filter fun r => r ∈ d.nodes ∧ r ≠ source) = [] := by
          simpa using hkept
        rw [hnone, List.append_nil]
        by_cases hnode : target ∈ d.nodes
        · have hself : target = source := by
            by_contra hne
            exact hkept ⟨hnode, hne⟩
          rw [if_neg (not_not.mpr hnode), if_pos hself]
        · rw [if_pos hnode]

theorem source_mem {nodes : List ProjectId} {ps : List Project} {edge : ProjectId × ProjectId}
    (h : edge ∈ ((firstsBy Project.id ps).filter fun p => p.id ∈ nodes).flatMap fun p =>
      (Graph.referencesOf nodes p).map fun r => (p.id, r)) : edge.1 ∈ ps.map Project.id := by
  rcases List.mem_flatMap.mp h with ⟨p, hp, hedge⟩
  rcases List.mem_map.mp hedge with ⟨r, _, rfl⟩
  have hfirst : p.id ∈ (firstsBy Project.id ps).map Project.id :=
    List.mem_map_of_mem (List.mem_filter.mp hp).left
  rwa [map_firstsBy, List.mem_eraseDups] at hfirst

/-- The second pass has wired the first project of each node that it has come to. -/
theorem foldl_wire (nodes : List ProjectId) (ps : List Project) :
    ps.foldl wire ⟨nodes, [], []⟩ =
      ⟨nodes, ((ps.map Project.id).filter fun id => id ∈ nodes).eraseDups,
        ((firstsBy Project.id ps).filter fun p => p.id ∈ nodes).flatMap fun p =>
          (Graph.referencesOf nodes p).map fun r => (p.id, r)⟩ := by
  induction ps using List.reverseRecOn with
  | nil => rfl
  | append_singleton ps p ih =>
      rw [List.foldl_append, ih, List.foldl_cons, List.foldl_nil, List.map_append,
        List.filter_append, List.map_singleton, firstsBy_concat, List.filter_append,
        List.flatMap_append]
      unfold wire
      by_cases hnode : p.id ∈ nodes
      · have hone : ([p.id].filter fun id => id ∈ nodes) = [p.id] := by
          simp [hnode]
        rw [if_neg (not_not.mpr hnode), hone, eraseDups_concat]
        have hmem : p.id ∈ (ps.map Project.id).filter (fun id => id ∈ nodes) ↔
            p.id ∈ ps.map Project.id := by
          simp [hnode]
        by_cases hseen : p.id ∈ ps.map Project.id
        · rw [if_pos (List.mem_eraseDups.mpr (hmem.mpr hseen)), if_pos (hmem.mpr hseen),
            if_pos hseen]
          simp
        · have hwired : p.id ∉ ((ps.map Project.id).filter fun id => id ∈ nodes).eraseDups :=
            fun h => hseen (hmem.mp (List.mem_eraseDups.mp h))
          rw [if_neg hwired, if_neg fun h => hseen (hmem.mp h), if_neg hseen, foldl_connect]
          · have hself : ([p].filter fun p => p.id ∈ nodes) = [p] := by
              simp [hnode]
            rw [hself, List.flatMap_singleton]
            rfl
          · -- Nothing starts from a project that is wired only now.
            intro edge hedge heq
            exact hseen (heq ▸ source_mem hedge)
      · have hid : ([p.id].filter fun id => id ∈ nodes) = [] := by
          simpa using hnode
        have hnone : ((if p.id ∈ ps.map Project.id then [] else [p]).filter
            fun p => decide (p.id ∈ nodes)) = [] := by
          split <;> simp [hnode]
        rw [if_pos hnode, hid, hnone, List.flatMap_nil, List.append_nil, List.append_nil]

theorem ofWorkspace_eq (w : Workspace) :
    ofWorkspace w =
      ⟨Graph.validIds w, ((w.projects.map Project.id).filter fun id =>
          id ∈ Graph.validIds w).eraseDups, (Graph.build w).edges⟩ := by
  have hleading : ((firstsBy Project.id w.projects).filter fun p =>
      decide (p.id ∈ Graph.validIds w)) = w.leading := by
    apply List.filter_congr
    intro p hp
    have hmem : p.id ∈ (firstsBy Project.id w.projects).map Project.id := List.mem_map_of_mem hp
    rw [map_firstsBy, List.mem_eraseDups] at hmem
    rw [Bool.eq_iff_iff, decide_eq_true_iff, Graph.mem_validIds]
    exact and_iff_right (List.mem_map.mp hmem)
  rw [ofWorkspace, foldl_enlist, foldl_wire, Graph.edges_build, ← hleading]
  rfl

/-- What comes of the two passes is the graph of the workspace. -/
theorem graph_ofWorkspace (w : Workspace) : (ofWorkspace w).graph = Graph.build w := by
  have hnode (n : Node) (hn : n ∈ (Graph.build w).nodes) :
      (⟨n.id, ((Graph.build w).edges.filter fun edge => edge.1 = n.id).map Prod.snd⟩ : Node) = n := by
    rw [Graph.map_filter_edges (Graph.nodup_ids_build w) hn]
  rw [ofWorkspace_eq, graph, ← Graph.ids_build, Graph.ids, List.map_map]
  exact congrArg Graph.mk ((List.map_congr_left hnode).trans (List.map_id _))

end Drawing

/-!
# Graphs and what they show
-/

namespace Graph

variable {w : Workspace}

/-- What is malformed in a workspace does not show in its graph. -/
theorem build_pruned (w : Workspace) : build w.pruned = build w := by
  have hids : validIds w.pruned = validIds w := by
    have hvalid : (w.leading.map Project.id).filter ProjectId.isValid =
        w.leading.map Project.id := by
      rw [List.filter_eq_self]
      intro id hid
      rcases List.mem_map.mp hid with ⟨p, hp, rfl⟩
      exact (Workspace.mem_leading.mp hp).left
    rw [validIds, Workspace.map_id_pruned, hvalid,
      eraseDups_of_nodup (Workspace.nodup_map_id_leading w), Workspace.map_id_leading]
  have hproject {id : ProjectId} (hid : id ∈ validIds w) :
      w.pruned.project? id = (w.project? id).map (Project.pruned (validIds w)) := by
    have hfind : (w.leading.map (Project.pruned (validIds w))).find? (fun p => p.id = id) =
        (w.leading.find? fun p => p.id = id).map (Project.pruned (validIds w)) :=
      List.find?_map
    have hleading := Workspace.find?_leading (w := w) (mem_validIds.mp hid).right
    rw [← hleading, ← hfind, ← Workspace.map_id_leading]
    rfl
  have hreferences (p : Project) :
      referencesOf (validIds w) (p.pruned (validIds w)) = referencesOf (validIds w) p := by
    have hagain : ((referencesOf (validIds w) p).filter fun r => r ∈ validIds w ∧ r ≠ p.id) =
        referencesOf (validIds w) p := by
      rw [referencesOf, filter_eraseDups, List.filter_filter]
      simp only [Bool.and_self]
    rw [referencesOf, Workspace.references_pruned]
    exact (congrArg List.eraseDups hagain).trans (eraseDups_of_nodup (nodup_eraseDups _))
  rw [build, hids, build]
  refine congrArg Graph.mk (List.map_congr_left fun id hid => ?_)
  rw [hproject hid]
  cases w.project? id with
  | none => rfl
  | some p => exact congrArg (Node.mk id) (hreferences p)

theorem sublist_dependencies (g : Graph) (id : ProjectId) :
    (g.dependencies id).Sublist g.ids :=
  List.filter_sublist

theorem sublist_dependents (g : Graph) (id : ProjectId) : (g.dependents id).Sublist g.ids :=
  List.filter_sublist.map Node.id

/-- The graph shows what is well formed in the workspace, and nothing else. -/
structure Shows (w : Workspace) (g : Graph) : Prop where
  /-- It is drawn in the two passes. -/
  drawn : (Drawing.ofWorkspace w).graph = g
  nodes : g.ids = w.leading.map Project.id
  references : ∀ a c, (a, c) ∈ g.edges ↔
    ∃ p ∈ w.leading, p.id = a ∧ c ∈ p.references ∧ c ∈ g.ids ∧ c ≠ a
  once : g.ids.Nodup ∧ g.edges.Nodup
  forward : ∀ a, (g.dependencies a).Nodup ∧ (g.dependencies a).Sublist g.ids ∧
    ∀ c, c ∈ g.dependencies a ↔ (a, c) ∈ g.edges
  backward : ∀ c, (g.dependents c).Nodup ∧ (g.dependents c).Sublist g.ids ∧
    ∀ a, a ∈ g.dependents c ↔ (a, c) ∈ g.edges
  inverse : ∀ a c, c ∈ g.dependencies a ↔ a ∈ g.dependents c
  /-- All that is asked of a graph is the same without what is malformed. -/
  pruned : w.pruned.Tidy ∧ build w.pruned = g

theorem mem_edges_iff_leading {a c : ProjectId} :
    (a, c) ∈ (build w).edges ↔
      ∃ p ∈ w.leading, p.id = a ∧ c ∈ p.references ∧ c ∈ (build w).ids ∧ c ≠ a := by
  rw [mem_edges_build, Refers, ids_build]
  constructor
  · intro h
    rcases h with ⟨ha, hc, hne, p, hp, href⟩
    have hid : p.id = a := by simpa [Workspace.project?] using List.find?_some hp
    subst hid
    exact ⟨p, Workspace.mem_leading.mpr ⟨(mem_validIds.mp ha).right, hp⟩, rfl, href, hc, hne⟩
  · intro h
    rcases h with ⟨p, hp, rfl, href, hc, hne⟩
    have ha : p.id ∈ validIds w := by
      rw [← Workspace.map_id_leading]
      exact List.mem_map_of_mem hp
    exact ⟨ha, hc, hne, p, (Workspace.mem_leading.mp hp).right, href⟩

theorem build_shows (w : Workspace) : Shows w (build w) where
  drawn := Drawing.graph_ofWorkspace w
  nodes := by rw [ids_build, Workspace.map_id_leading]
  references _ _ := mem_edges_iff_leading
  once := ⟨nodup_ids_build w, nodup_edges_build w⟩
  forward a := by
    have hsublist := sublist_dependencies (build w) a
    refine ⟨(nodup_ids_build w).sublist hsublist, hsublist, fun c => ?_⟩
    rw [mem_dependencies_build, mem_edges_build]
  backward c := by
    have hsublist := sublist_dependents (build w) c
    refine ⟨(nodup_ids_build w).sublist hsublist, hsublist, fun a => ?_⟩
    rw [mem_dependents_build, mem_edges_build]
  inverse a c := by rw [mem_dependencies_build, mem_dependents_build]
  pruned := ⟨Workspace.tidy_pruned w, build_pruned w⟩

end Graph
end Ripple
