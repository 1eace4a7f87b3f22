import Ripple.Graph.Order
import Ripple.Proofs.Graph.Breadth

/-!
# Groups of mutually dependent projects

Two projects are in one group if each leads to the other.
-/

namespace Ripple
namespace Graph

variable {w : Workspace} {a c d : ProjectId}

/-- Each of the two projects leads to the other, or they are the same. -/
def Mutual (w : Workspace) (a c : ProjectId) : Prop :=
  Relation.ReflTransGen (Refers w) a c ∧ Relation.ReflTransGen (Refers w) c a

theorem Mutual.refl (a : ProjectId) : Mutual w a a :=
  ⟨.refl, .refl⟩

theorem Mutual.symm (h : Mutual w a c) : Mutual w c a :=
  ⟨h.right, h.left⟩

theorem Mutual.trans (h : Mutual w a c) (h' : Mutual w c d) : Mutual w a d :=
  ⟨h.left.trans h'.left, h'.right.trans h.right⟩

/-- What is closed under references holds of all that a node leads to. -/
theorem holds_of_reaches {P : ProjectId → Prop} (hP : ∀ x, P x → ∀ c, Refers w x c → P c)
    (ha : P a) (h : Relation.ReflTransGen (Refers w) a c) : P c := by
  induction h with
  | refl => exact ha
  | tail _ hstep ih => exact hP _ ih _ hstep

/-- What a node leads to is a node. -/
theorem mem_validIds_of_reaches (h : Relation.ReflTransGen (Refers w) a c)
    (ha : a ∈ validIds w) : c ∈ validIds w :=
  holds_of_reaches (fun _ _ _ hstep => hstep.right.left) ha h

theorem mem_group : c ∈ (build w).group a ↔ a ∈ validIds w ∧ Mutual w a c := by
  simp only [group, List.mem_filter, decide_eq_true_eq, mem_withDependencies_build,
    mem_withDependents_build, ids_build]
  constructor
  · rintro ⟨_, ⟨ha, hto⟩, _, hback⟩
    exact ⟨ha, hto, hback⟩
  · rintro ⟨ha, hto, hback⟩
    exact ⟨mem_validIds_of_reaches hto ha, ⟨ha, hto⟩, ha, hback⟩

theorem self_mem_group (ha : a ∈ validIds w) : a ∈ (build w).group a :=
  mem_group.mpr ⟨ha, .refl a⟩

/-- A group is the same for all its members. -/
theorem group_eq_of_mem (h : c ∈ (build w).group a) : (build w).group c = (build w).group a := by
  rcases mem_group.mp h with ⟨ha, hmutual⟩
  have hc : c ∈ validIds w := mem_validIds_of_reaches hmutual.left ha
  have hmem : ∀ d, d ∈ (build w).group c ↔ d ∈ (build w).group a := by
    intro d
    rw [mem_group, mem_group]
    constructor
    · rintro ⟨_, hd⟩
      exact ⟨ha, hmutual.trans hd⟩
    · rintro ⟨_, hd⟩
      exact ⟨hc, hmutual.symm.trans hd⟩
  apply List.filter_congr
  intro d hd
  have hiff := hmem d
  simp only [group, List.mem_filter, hd, true_and] at hiff
  exact Bool.eq_iff_iff.mpr hiff

theorem group_eq_iff (ha : a ∈ validIds w) (hc : c ∈ validIds w) :
    (build w).group c = (build w).group a ↔ Mutual w a c := by
  constructor
  · intro h
    exact (mem_group.mp (h ▸ self_mem_group hc)).right
  · intro h
    exact group_eq_of_mem (mem_group.mpr ⟨ha, h⟩)

theorem group_sublist (g : Graph) (a : ProjectId) : (g.group a).Sublist g.ids :=
  List.filter_sublist

theorem nodup_ids_build (w : Workspace) : (build w).ids.Nodup := by
  rw [ids_build]
  exact nodup_eraseDups _

/-- Some other project is in a group if there is more than one member. -/
theorem one_lt_length_group (ha : a ∈ validIds w) :
    1 < ((build w).group a).length ↔ ∃ c, c ≠ a ∧ Mutual w a c := by
  have hself := self_mem_group ha
  have hnodup := (nodup_ids_build w).sublist (group_sublist (build w) a)
  constructor
  · intro hlength
    by_contra halone
    have hall : ∀ c ∈ (build w).group a, c = a := by
      intro c hc
      by_contra hne
      exact halone ⟨c, hne, (mem_group.mp hc).right⟩
    have hsub : (build w).group a ⊆ [a] := fun c hc => List.mem_singleton.mpr (hall c hc)
    have hle := (hnodup.subperm hsub).length_le
    rw [List.length_singleton] at hle
    omega
  · rintro ⟨c, hne, hmutual⟩
    have hpair : [a, c].Nodup := by simpa using hne.symm
    have hsub : [a, c] ⊆ (build w).group a := by
      intro d hd
      rcases List.mem_pair.mp hd with rfl | rfl
      · exact hself
      · exact mem_group.mpr ⟨ha, hmutual⟩
    exact (hpair.subperm hsub).length_le

end Graph
end Ripple
