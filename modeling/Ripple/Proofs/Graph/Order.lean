import Ripple.Graph.Order
import Ripple.Proofs.Graph.Effective

/-!
# The topological order

A walk leaves a node after everything that the node leads to, except for what
was entered earlier and is still open; the open nodes all lead to the node. So
the order lists every project once, and each after its effective dependencies.
-/

namespace Ripple
namespace Graph

variable {next : ProjectId → List ProjectId} {ids : List ProjectId}

/-- What a node leads to directly is listed before it, unless that leads back to
the node. -/
def Arranged (next : ProjectId → List ProjectId) (xs : List ProjectId) : Prop :=
  ∀ before id after, xs = before ++ id :: after →
    ∀ c ∈ next id, c ∈ before ∨ Reaches next c id

theorem arranged_concat {xs : List ProjectId} {id : ProjectId} (h : Arranged next xs)
    (hid : ∀ c ∈ next id, c ∈ xs ∨ Reaches next c id) : Arranged next (xs ++ [id]) := by
  intro before x after heq c hc
  rcases List.eq_nil_or_concat' after with rfl | ⟨init, last, rfl⟩
  · rcases List.append_inj' heq rfl with ⟨rfl, hx⟩
    cases hx
    exact hid c hc
  · rw [← List.cons_append, ← List.append_assoc] at heq
    rcases List.append_inj' heq rfl with ⟨hxs, _⟩
    exact h before x init hxs c hc

/-!
# Walks
-/

namespace Walk

structure Sound (next : ProjectId → List ProjectId) (ids : List ProjectId) (w : Walk) :
    Prop where
  left_entered : ∀ x ∈ w.left, x ∈ w.entered
  entered_ids : ∀ x ∈ w.entered, x ∈ ids
  nodup : w.left.Nodup
  arranged : Arranged next w.left

/-- The later walk has left nothing that was open in the earlier one, and has
opened nothing. -/
structure Extends (w w' : Walk) : Prop where
  entered : ∀ x ∈ w.entered, x ∈ w'.entered
  left : ∀ x ∈ w.left, x ∈ w'.left
  closed : ∀ x ∈ w'.entered, x ∈ w'.left ∨ x ∈ w.entered
  fresh : ∀ x ∈ w'.left, x ∈ w.left ∨ x ∉ w.entered

theorem Extends.refl (w : Walk) : w.Extends w :=
  ⟨fun _ h => h, fun _ h => h, fun _ h => Or.inr h, fun _ h => Or.inl h⟩

theorem Extends.trans {w w' w'' : Walk} (h : w.Extends w') (h' : w'.Extends w'') :
    w.Extends w'' where
  entered x hx := h'.entered x (h.entered x hx)
  left x hx := h'.left x (h.left x hx)
  closed x hx := by
    rcases h'.closed x hx with hx | hx
    · exact Or.inl hx
    · rcases h.closed x hx with hx | hx
      · exact Or.inl (h'.left x hx)
      · exact Or.inr hx
  fresh x hx := by
    rcases h'.fresh x hx with hx | hx
    · exact h.fresh x hx
    · exact Or.inr fun hin => hx (h.entered x hin)

/-- Every open node leads to the node. -/
def OpenReach (next : ProjectId → List ProjectId) (w : Walk) (id : ProjectId) : Prop :=
  ∀ x ∈ w.entered, x ∈ w.left ∨ Reaches next x id

theorem OpenReach.extends {w w' : Walk} {id : ProjectId} (h : w.OpenReach next id)
    (hext : w.Extends w') : w'.OpenReach next id := by
  intro x hx
  rcases hext.closed x hx with hx | hx
  · exact Or.inl hx
  · rcases h x hx with hx | hx
    · exact Or.inl (hext.left x hx)
    · exact Or.inr hx

/-- What visiting a node comes to. -/
structure Visits (next : ProjectId → List ProjectId) (ids : List ProjectId) (w : Walk)
    (id : ProjectId) (w' : Walk) : Prop where
  sound : w'.Sound next ids
  extension : w.Extends w'
  entered : id ∈ w'.entered

end Walk

theorem unseen_le_of_subset {seen seen' : List ProjectId} (h : ∀ x ∈ seen, x ∈ seen') :
    unseen ids seen' ≤ unseen ids seen := by
  apply Finset.card_le_card
  intro x hx
  simp only [Finset.mem_sdiff, List.mem_toFinset] at hx ⊢
  exact ⟨hx.left, fun hseen => hx.right (h x hseen)⟩

theorem unseen_cons_lt {seen : List ProjectId} {x : ProjectId} (hx : x ∈ ids)
    (hnew : x ∉ seen) : unseen ids (x :: seen) < unseen ids seen := by
  have hlt : unseen ids (seen ++ [x]) < unseen ids seen :=
    unseen_lt hx hnew (List.mem_singleton_self x)
  have hle : unseen ids (x :: seen) ≤ unseen ids (seen ++ [x]) := by
    apply unseen_le_of_subset
    intro y hy
    rcases List.mem_append.mp hy with hy | hy
    · exact List.mem_cons_of_mem _ hy
    · exact List.mem_singleton.mp hy ▸ List.mem_cons_self
  omega

/-- Visiting several nodes, if visiting each of them is understood. -/
theorem visits_foldl {visit : Walk → ProjectId → Walk} {depth : Nat}
    (hvisit : ∀ (w : Walk) (id : ProjectId), id ∈ ids → w.Sound next ids →
      unseen ids w.entered ≤ depth → w.OpenReach next id → w.Visits next ids id (visit w id))
    {xs : List ProjectId} (hxs : ∀ x ∈ xs, x ∈ ids) {w : Walk} (hw : w.Sound next ids)
    (hdepth : unseen ids w.entered ≤ depth) (hopen : ∀ x ∈ xs, w.OpenReach next x) :
    (xs.foldl visit w).Sound next ids ∧ w.Extends (xs.foldl visit w) ∧
      ∀ x ∈ xs, x ∈ (xs.foldl visit w).entered := by
  induction xs generalizing w with
  | nil =>
      exact ⟨hw, .refl w, by simp⟩
  | cons x xs ih =>
      rw [List.forall_mem_cons] at hxs hopen
      have hx := hvisit w x hxs.left hw hdepth hopen.left
      rcases ih hxs.right hx.sound
          (Nat.le_trans (unseen_le_of_subset hx.extension.entered) hdepth)
          (fun y hy => (hopen.right y hy).extends hx.extension) with
        ⟨hsound, hext, hentered⟩
      refine ⟨hsound, hx.extension.trans hext, ?_⟩
      rw [List.forall_mem_cons]
      exact ⟨hext.entered x hx.entered, hentered⟩

theorem visits_walkFrom (hnext : ∀ a, ∀ c ∈ next a, c ∈ ids) (depth : Nat) (w : Walk)
    (id : ProjectId) (hid : id ∈ ids) (hw : w.Sound next ids)
    (hdepth : unseen ids w.entered ≤ depth) (hopen : w.OpenReach next id) :
    w.Visits next ids id (walkFrom next depth w id) := by
  induction depth generalizing w id with
  | zero =>
      have hin : id ∈ w.entered := by
        by_contra hnew
        have hlt := unseen_cons_lt hid hnew
        omega
      exact ⟨hw, .refl w, hin⟩
  | succ depth ih =>
      rw [walkFrom]
      by_cases hin : id ∈ w.entered
      · rw [if_pos hin]
        exact ⟨hw, .refl w, hin⟩
      · rw [if_neg hin]
        have hnotLeft : id ∉ w.left := fun hleft => hin (hw.left_entered id hleft)
        let start : Walk := { w with entered := id :: w.entered }
        have hstart : start.Sound next ids :=
          ⟨fun x hx => List.mem_cons_of_mem _ (hw.left_entered x hx),
            List.forall_mem_cons.mpr ⟨hid, hw.entered_ids⟩, hw.nodup, hw.arranged⟩
        have hfuel : unseen ids start.entered ≤ depth := by
          have hlt := unseen_cons_lt hid hin
          simp only [start]
          omega
        have hstartOpen : ∀ c ∈ next id, start.OpenReach next c := by
          intro c hc x hx
          rcases List.mem_cons.mp hx with rfl | hx
          · exact Or.inr (.single hc)
          · rcases hopen x hx with hx | hx
            · exact Or.inl hx
            · exact Or.inr (hx.tail hc)
        rcases visits_foldl ih (hnext id) hstart hfuel hstartOpen with ⟨hsound, hext, hentered⟩
        generalize hinner : (next id).foldl (walkFrom next depth) start = inner at *
        have hidIn : id ∈ inner.entered := hext.entered id List.mem_cons_self
        have hidLeft : id ∉ inner.left := by
          intro hleft
          rcases hext.fresh id hleft with h | h
          · exact hnotLeft h
          · exact h List.mem_cons_self
        refine ⟨⟨?_, hsound.entered_ids, ?_, ?_⟩, ⟨?_, ?_, ?_, ?_⟩, hidIn⟩
        · intro x hx
          rcases List.mem_append.mp hx with hx | hx
          · exact hsound.left_entered x hx
          · exact List.mem_singleton.mp hx ▸ hidIn
        · refine List.nodup_append.mpr ⟨hsound.nodup, List.nodup_singleton id, ?_⟩
          rintro x hx y hy rfl
          exact hidLeft (List.mem_singleton.mp hy ▸ hx)
        · apply arranged_concat hsound.arranged
          intro c hc
          rcases hext.closed c (hentered c hc) with hleft | hstartIn
          · exact Or.inl hleft
          · rcases List.mem_cons.mp hstartIn with rfl | hwin
            · exact Or.inr .refl
            · rcases hopen c hwin with hleft | hreach
              · exact Or.inl (hext.left c hleft)
              · exact Or.inr hreach
        · exact fun x hx => hext.entered x (List.mem_cons_of_mem _ hx)
        · exact fun x hx => List.mem_append_left _ (hext.left x hx)
        · intro x hx
          rcases hext.closed x hx with hleft | hstartIn
          · exact Or.inl (List.mem_append_left _ hleft)
          · rcases List.mem_cons.mp hstartIn with rfl | hwin
            · exact Or.inl (List.mem_append_right _ (List.mem_singleton_self x))
            · exact Or.inr hwin
        · intro x hx
          rcases List.mem_append.mp hx with hx | hx
          · rcases hext.fresh x hx with h | h
            · exact Or.inl h
            · exact Or.inr fun hwin => h (List.mem_cons_of_mem _ hwin)
          · exact Or.inr (List.mem_singleton.mp hx ▸ hin)

/-!
# The order of a graph
-/

variable {g : Graph}

theorem walk_sound (hnext : ∀ a, ∀ c ∈ next a, c ∈ g.ids) :
    (g.walk next).Nodup ∧ Arranged next (g.walk next) ∧ ∀ x, x ∈ g.walk next ↔ x ∈ g.ids := by
  have hempty : Walk.Sound next g.ids ⟨[], []⟩ :=
    ⟨by simp, by simp, List.nodup_nil, fun before id after h => by simp at h⟩
  have hfuel : unseen g.ids [] ≤ g.nodes.length := by
    rw [← length_ids]
    simpa [unseen] using g.ids.toFinset_card_le
  rcases visits_foldl (visits_walkFrom hnext g.nodes.length)
      (fun x hx => hx) hempty hfuel (fun x hx y hy => by simp at hy) with
    ⟨hsound, hext, hentered⟩
  refine ⟨hsound.nodup, hsound.arranged, fun x => ⟨fun hx => ?_, fun hx => ?_⟩⟩
  · exact hsound.entered_ids x (hsound.left_entered x hx)
  · rcases hext.closed x (hentered x hx) with h | h
    · exact h
    · cases h

theorem nodup_topologicalOrder (g : Graph) : g.topologicalOrder.Nodup :=
  (walk_sound mem_ids_of_mem_dependencies).left

theorem mem_topologicalOrder {id : ProjectId} : id ∈ g.topologicalOrder ↔ id ∈ g.ids :=
  (walk_sound mem_ids_of_mem_dependencies).right.right id

theorem not_mem_effective_self (g : Graph) (id : ProjectId) :
    id ∉ g.effectiveDependencies id :=
  fun h => not_reaches_of_effective h .refl

theorem Arranged.pairwise {xs : List ProjectId} (h : Arranged next xs) (hnodup : xs.Nodup) :
    xs.Pairwise fun a c => c ∈ next a → Reaches next c a := by
  rw [List.pairwise_iff_getElem]
  intro i j hi hj hij hc
  rcases h (xs.take i) xs[i] (xs.drop (i + 1)) (by simp) xs[j] hc with hbefore | hreach
  · rcases List.mem_take_iff_getElem.mp hbefore with ⟨k, hk, heq⟩
    have hkj := (List.Nodup.getElem_inj_iff hnodup).mp heq
    omega
  · exact hreach

/-- No project is listed after one that it is an effective dependency of. -/
theorem pairwise_topologicalOrder (g : Graph) :
    g.topologicalOrder.Pairwise fun a c => c ∉ g.effectiveDependencies a := by
  rcases walk_sound (g := g) mem_ids_of_mem_dependencies with ⟨hnodup, harranged, _⟩
  apply (harranged.pairwise hnodup).imp
  intro a c hback hc
  exact not_reaches_of_effective hc (hback (mem_dependencies_of_effective hc))

/-- In a part of the order, a listed dependency of a project is listed before it. -/
theorem mem_before_of_pairwise {before after : List ProjectId} {id c : ProjectId}
    (h : (before ++ id :: after).Pairwise fun a c => c ∉ g.effectiveDependencies a)
    (hc : c ∈ g.effectiveDependencies id) (hmem : c ∈ before ++ id :: after) :
    c ∈ before := by
  rcases List.mem_append.mp hmem with hbefore | hrest
  · exact hbefore
  · rcases List.pairwise_append.mp h with ⟨_, hrest', _⟩
    rcases List.mem_cons.mp hrest with rfl | hafter
    · exact absurd hc (not_mem_effective_self g c)
    · exact absurd hc ((List.pairwise_cons.mp hrest').left c hafter)

end Graph
end Ripple
