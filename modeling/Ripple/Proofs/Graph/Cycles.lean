import Ripple.Proofs.Graph.Components
import Ripple.Proofs.Graph.Search

/-!
# Cycles

A group with more than one member is a cycle of references. It is found in three ways: it is
listed among the cycles, some of its references are not effective, and no order puts all its
references before what they are references of.
-/

namespace Ripple
namespace Graph

variable {w : Workspace} {a c d : ProjectId}

/-- The references along which groups are listed. -/
abbrev newestFirst (g : Graph) (id : ProjectId) : List ProjectId :=
  (g.references id).reverse

theorem mem_newestFirst {a c : ProjectId} : c ∈ (build w).newestFirst a ↔ Refers w a c := by
  rw [newestFirst, List.mem_reverse, refers_iff]
  by_cases ha : a ∈ validIds w
  · rw [references_build ha, and_iff_right ha]
  · have hnone : (build w).node? a = none := by
      rw [← Option.not_isSome_iff_eq_none]
      intro hsome
      exact ha (ids_build w ▸ mem_ids_iff_contains.mpr hsome)
    simp [references, hnone, ha]

/-- The cycles are the groups of more than one member that are found in one walk, in the order
in which they are complete. -/
theorem cycles_build (w : Workspace) :
    (((build w).components (build w).newestFirst).filter fun members =>
      1 < members.length).map (build w).inOrder = (build w).cycles := by
  have hlarge : ((fun members : List ProjectId => decide (1 < members.length)) ∘
      (build w).inOrder) = fun members => decide (1 < members.length) := by
    funext members
    simp only [Function.comp_apply, inOrder, List.length_mergeSort]
  have hgroups := components_build fun _ _ => mem_newestFirst (w := w)
  change _ = (lastOnes (((build w).walk (build w).newestFirst).map (build w).group)).filter _
  rw [← hgroups, List.filter_map, hlarge]

theorem mem_cycles {members : List ProjectId} :
    members ∈ (build w).cycles ↔
      (∃ id ∈ validIds w, (build w).group id = members) ∧ 1 < members.length := by
  have hids : ∀ a, ∀ c ∈ (build w).newestFirst a, c ∈ (build w).ids := by
    intro a c hc
    rw [ids_build]
    exact (mem_newestFirst.mp hc).right.left
  have hwalk := (walk_sound hids).right.right
  simp only [cycles, List.mem_filter, List.mem_reverse, List.mem_eraseDups, List.mem_map,
    decide_eq_true_eq, hwalk, ids_build]

theorem nodup_cycles (g : Graph) : g.cycles.Nodup :=
  (List.nodup_reverse.mpr (nodup_eraseDups _)).filter _

/-- Every project is in at most one of the cycles. -/
theorem pairwise_disjoint_cycles (w : Workspace) : (build w).cycles.Pairwise List.Disjoint := by
  refine (nodup_cycles _).pairwise_of_forall_ne ?_
  intro members hmembers others hothers hne a ha ha'
  rcases (mem_cycles.mp hmembers).left with ⟨id, _, rfl⟩
  rcases (mem_cycles.mp hothers).left with ⟨id', _, rfl⟩
  exact hne ((group_eq_of_mem ha).symm.trans (group_eq_of_mem ha'))

theorem mem_cycle_iff :
    (∃ members ∈ (build w).cycles, a ∈ members) ↔
      a ∈ validIds w ∧ ∃ c, c ≠ a ∧ Mutual w a c := by
  constructor
  · rintro ⟨members, hmembers, ha⟩
    rcases mem_cycles.mp hmembers with ⟨⟨id, hid, rfl⟩, hlength⟩
    have hvalid := mem_validIds_of_reaches (mem_group.mp ha).right.left hid
    rw [← group_eq_of_mem ha, one_lt_length_group hvalid] at hlength
    exact ⟨hvalid, hlength⟩
  · rintro ⟨ha, hother⟩
    exact ⟨(build w).group a,
      mem_cycles.mpr ⟨⟨a, ha, rfl⟩, (one_lt_length_group ha).mpr hother⟩, self_mem_group ha⟩

/-- Two projects are in one cycle if each leads to the other. -/
theorem share_cycle_iff (hne : a ≠ c) :
    (∃ members ∈ (build w).cycles, a ∈ members ∧ c ∈ members) ↔
      a ∈ (build w).withDependencies c ∧ c ∈ (build w).withDependencies a := by
  rw [mem_withDependencies_build, mem_withDependencies_build]
  constructor
  · rintro ⟨members, hmembers, ha, hc⟩
    rcases (mem_cycles.mp hmembers).left with ⟨id, _, rfl⟩
    rcases mem_group.mp (group_eq_of_mem ha ▸ hc) with ⟨hvalid, hto, hback⟩
    exact ⟨⟨mem_validIds_of_reaches hto hvalid, hback⟩, hvalid, hto⟩
  · rintro ⟨⟨_, hback⟩, ha, hto⟩
    have hlength := (one_lt_length_group ha).mpr ⟨c, hne.symm, hto, hback⟩
    exact ⟨(build w).group a, mem_cycles.mpr ⟨⟨a, ha, rfl⟩, hlength⟩, self_mem_group ha,
      mem_group.mpr ⟨ha, hto, hback⟩⟩

/-!
# Cycles and effective dependencies
-/

/-- A project is in a cycle if it has a dependency that is not effective. -/
theorem mem_cycle_iff_dropped :
    (∃ members ∈ (build w).cycles, a ∈ members) ↔
      ∃ c ∈ (build w).dependencies a, c ∉ (build w).effectiveDependencies a := by
  rw [mem_cycle_iff]
  simp only [mem_dependencies_build, mem_effectiveDependencies_build, not_and, not_not]
  constructor
  · rintro ⟨_, c, hne, hto, hback⟩
    -- The first reference on the way to the other project leads back by way of it.
    rcases Relation.ReflTransGen.cases_head hto with heq | ⟨d, hstep, hrest⟩
    · exact absurd heq.symm hne
    · exact ⟨d, hstep, fun _ => hrest.trans hback⟩
  · rintro ⟨c, href, hdropped⟩
    exact ⟨href.left, c, href.right.right.left, .single href, hdropped href⟩

/-!
# Cycles and the order
-/

theorem Before.idxOf_lt {xs : List ProjectId} (hnodup : xs.Nodup) (h : Before xs a c) :
    xs.idxOf a < xs.idxOf c := by
  rcases h with ⟨front, back, rfl, ha⟩
  have hc : c ∉ front := fun hmem =>
    (List.nodup_append.mp hnodup).right.right c hmem c List.mem_cons_self rfl
  rw [List.idxOf_append_of_mem ha, List.idxOf_append_of_notMem hc]
  exact Nat.lt_of_lt_of_le (List.idxOf_lt_length_of_mem ha) (Nat.le_add_right _ _)

/-- There is no cycle if every project is listed behind all its dependencies. -/
theorem hasCycles_eq_false_iff :
    (build w).hasCycles = false ↔
      ∀ id ∈ (build w).ids, ∀ c ∈ (build w).dependencies id,
        Before (build w).topologicalOrder c id := by
  have hnone : (build w).hasCycles = false ↔
      ∀ id, ¬ ∃ members ∈ (build w).cycles, id ∈ members := by
    rw [hasCycles, Bool.not_eq_false', List.isEmpty_iff, List.eq_nil_iff_forall_not_mem]
    constructor
    · rintro h id ⟨members, hmembers, _⟩
      exact h members hmembers
    · intro h members hmembers
      rcases List.exists_mem_of_length_pos
        (Nat.zero_lt_of_lt (mem_cycles.mp hmembers).right) with ⟨id, hid⟩
      exact h id ⟨members, hmembers, hid⟩
  rw [hnone]
  constructor
  · intro h id hid c hc
    apply before_of_effective hid
    by_contra hdropped
    exact h id (mem_cycle_iff_dropped.mpr ⟨c, hc, hdropped⟩)
  · intro h id hcycle
    have hlt {a c : ProjectId} (href : Relation.TransGen (Refers w) a c) :
        (build w).topologicalOrder.idxOf c < (build w).topologicalOrder.idxOf a := by
      induction href with
      | single href =>
          exact (h _ (ids_build w ▸ href.left) _ (mem_dependencies_build.mpr href)).idxOf_lt
            (nodup_topologicalOrder _)
      | tail _ href ih =>
          exact Nat.lt_trans ((h _ (ids_build w ▸ href.left) _
            (mem_dependencies_build.mpr href)).idxOf_lt (nodup_topologicalOrder _)) ih
    rcases (mem_cycle_iff.mp hcycle).right with ⟨c, hne, hto, hback⟩
    rcases Relation.reflTransGen_iff_eq_or_transGen.mp hto with heq | hto
    · exact hne heq
    · exact Nat.lt_irrefl _ (hlt (hto.trans_left hback))

/-- One walk finds the cycles, and the three views of them agree. -/
theorem cycles_agree (w : Workspace) :
    (((build w).components (build w).newestFirst).filter fun members =>
      1 < members.length).map (build w).inOrder = (build w).cycles ∧
    ((build w).cycles.Pairwise List.Disjoint ∧
      ∀ members ∈ (build w).cycles,
        2 ≤ members.length ∧ members.Nodup ∧ members.Sublist (build w).ids) ∧
    (∀ a c, a ≠ c → ((∃ members ∈ (build w).cycles, a ∈ members ∧ c ∈ members) ↔
      a ∈ (build w).withDependencies c ∧ c ∈ (build w).withDependencies a)) ∧
    (∀ id, (∃ members ∈ (build w).cycles, id ∈ members) ↔
      ∃ c ∈ (build w).dependencies id, c ∉ (build w).effectiveDependencies id) ∧
    ((build w).hasCycles = false ↔
      ∀ id ∈ (build w).ids, ∀ c ∈ (build w).dependencies id,
        Before (build w).topologicalOrder c id) := by
  refine ⟨cycles_build w, ⟨pairwise_disjoint_cycles w, ?_⟩, fun _ _ => share_cycle_iff,
    fun _ => mem_cycle_iff_dropped, hasCycles_eq_false_iff⟩
  intro members hmembers
  rcases mem_cycles.mp hmembers with ⟨⟨id, _, rfl⟩, hlength⟩
  have hsub := group_sublist (build w) id
  exact ⟨hlength, (nodup_ids_build w).sublist hsub, hsub⟩

end Graph
end Ripple
