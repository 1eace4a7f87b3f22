import Mathlib.Data.Finset.Card
import Mathlib.Logic.Relation
import Ripple.Graph.Basic

/-!
# Closures of the reference graph

The rings that a closure is listed in hold exactly what can be reached, and each
project once. The bound on the number of rings is never met: every ring but the
first takes a node that had not been seen.
-/

namespace Ripple
namespace Graph

/-- There is a way along a list of neighbours, of any length. -/
abbrev Reaches (next : ProjectId → List ProjectId) : ProjectId → ProjectId → Prop :=
  Relation.ReflTransGen fun a c => c ∈ next a

/-!
# Rings

The ring beyond a ring, and how many nodes are left to be seen.
-/

def beyond (next : ProjectId → List ProjectId) (seen ring : List ProjectId) : List ProjectId :=
  (ring.flatMap next).eraseDups.filter fun id => id ∉ seen

theorem ringsFrom_succ (next : ProjectId → List ProjectId) (n : Nat)
    (seen ring : List ProjectId) :
    ringsFrom next (n + 1) seen ring =
      if ring.isEmpty then []
      else ring ++ ringsFrom next n (seen ++ beyond next seen ring) (beyond next seen ring) :=
  rfl

theorem mem_beyond {next : ProjectId → List ProjectId} {seen ring : List ProjectId}
    {x : ProjectId} :
    x ∈ beyond next seen ring ↔ (∃ r ∈ ring, x ∈ next r) ∧ x ∉ seen := by
  simp [beyond]

theorem nodup_eraseDups [BEq α] [LawfulBEq α] (xs : List α) : xs.eraseDups.Nodup := by
  induction h : xs.length using Nat.strong_induction_on generalizing xs with
  | h n ih =>
      cases xs with
      | nil =>
          simp
      | cons x xs =>
          rw [List.eraseDups_cons, List.nodup_cons]
          constructor
          · simp
          · apply ih _ _ _ rfl
            have hle := List.length_filter_le (fun y => !y == x) xs
            simp only [List.length_cons] at h
            omega

theorem nodup_beyond (next : ProjectId → List ProjectId) (seen ring : List ProjectId) :
    (beyond next seen ring).Nodup :=
  (nodup_eraseDups _).filter _

def unseen (ids seen : List ProjectId) : Nat :=
  (ids.toFinset \ seen.toFinset).card

theorem unseen_lt {ids seen more : List ProjectId} {x : ProjectId}
    (hx : x ∈ ids) (hnew : x ∉ seen) (hmore : x ∈ more) :
    unseen ids (seen ++ more) < unseen ids seen := by
  apply Finset.card_lt_card
  rw [Finset.ssubset_iff_of_subset]
  · exact ⟨x, by simp [hx, hnew], by simp [hmore]⟩
  · intro y
    simp only [Finset.mem_sdiff, List.mem_toFinset, List.mem_append]
    intro hy
    exact ⟨hy.left, fun hseen => hy.right (Or.inl hseen)⟩

theorem unseen_singleton_lt {ids : List ProjectId} {x : ProjectId} (hx : x ∈ ids) :
    unseen ids [x] < ids.length := by
  have hlt : unseen ids ([] ++ [x]) < unseen ids [] :=
    unseen_lt hx (by simp) (by simp)
  have hle : unseen ids [] ≤ ids.length := by
    simpa [unseen] using ids.toFinset_card_le
  exact Nat.lt_of_lt_of_le hlt hle

/-- There is nothing beyond a ring, or the ring beyond takes some node. -/
theorem unseen_beyond {next : ProjectId → List ProjectId} {ids : List ProjectId}
    (hids : ∀ a, ∀ c ∈ next a, c ∈ ids) {n : Nat} {seen : List ProjectId}
    (hbound : unseen ids seen < n + 1) (ring : List ProjectId) :
    beyond next seen ring = [] ∨ unseen ids (seen ++ beyond next seen ring) < n := by
  cases hb : beyond next seen ring with
  | nil =>
      exact Or.inl rfl
  | cons x rest =>
      apply Or.inr
      have hx : x ∈ beyond next seen ring := by simp [hb]
      rcases mem_beyond.mp hx with ⟨⟨r, _, hstep⟩, hnew⟩
      have hlt := unseen_lt (hids r x hstep) hnew hx
      rw [hb] at hlt
      omega

theorem reaches_of_mem_ringsFrom {next : ProjectId → List ProjectId} {n : Nat}
    {seen ring : List ProjectId} {x : ProjectId}
    (hx : x ∈ ringsFrom next n seen ring) :
    ∃ r ∈ ring, Reaches next r x := by
  induction n generalizing seen ring with
  | zero =>
      cases hx
  | succ n ih =>
      rw [ringsFrom_succ] at hx
      split at hx
      · cases hx
      · rcases List.mem_append.mp hx with hx | hx
        · exact ⟨x, hx, .refl⟩
        · rcases ih hx with ⟨s, hs, hreach⟩
          rcases mem_beyond.mp hs with ⟨⟨r, hr, hstep⟩, _⟩
          exact ⟨r, hr, .head hstep hreach⟩

theorem not_mem_seen_of_mem_ringsFrom {next : ProjectId → List ProjectId} {n : Nat}
    {seen ring : List ProjectId} {x : ProjectId}
    (hx : x ∈ ringsFrom next n seen ring) (hring : x ∉ ring) : x ∉ seen := by
  induction n generalizing seen ring with
  | zero =>
      cases hx
  | succ n ih =>
      rw [ringsFrom_succ] at hx
      split at hx
      · cases hx
      · have hlater := (List.mem_append.mp hx).resolve_left hring
        by_cases hbeyond : x ∈ beyond next seen ring
        · exact (mem_beyond.mp hbeyond).right
        · intro hseen
          exact ih hlater hbeyond (List.mem_append.mpr (Or.inl hseen))

theorem nodup_ringsFrom {next : ProjectId → List ProjectId} {n : Nat}
    {seen ring : List ProjectId} (hring : ring.Nodup) (hseen : ring ⊆ seen) :
    (ringsFrom next n seen ring).Nodup := by
  induction n generalizing seen ring with
  | zero =>
      exact List.nodup_nil
  | succ n ih =>
      rw [ringsFrom_succ]
      split
      · exact List.nodup_nil
      · apply List.Nodup.append hring
        · exact ih (nodup_beyond next seen ring) (List.subset_append_right _ _)
        · intro x hx hlater
          have hxSeen := hseen hx
          have hnew : x ∉ beyond next seen ring := fun h => (mem_beyond.mp h).right hxSeen
          exact not_mem_seen_of_mem_ringsFrom hlater hnew
            (List.mem_append.mpr (Or.inl hxSeen))

theorem subset_ringsFrom {next : ProjectId → List ProjectId} {n : Nat}
    {seen ring : List ProjectId} (hn : ring = [] ∨ 0 < n) :
    ring ⊆ ringsFrom next n seen ring := by
  intro x hx
  cases n with
  | zero =>
      rcases hn with rfl | hn
      · cases hx
      · cases hn
  | succ n =>
      rw [ringsFrom_succ, if_neg (by cases ring <;> simp_all)]
      exact List.mem_append.mpr (Or.inl hx)

/-!
The rings are closed when the bound is larger than the number of unseen nodes.
The invariant is that whatever has been seen and is not in the last ring has all
its neighbours among what has been seen.
-/

theorem ringsFrom_closed {next : ProjectId → List ProjectId} {ids : List ProjectId}
    (hids : ∀ a, ∀ c ∈ next a, c ∈ ids) {n : Nat} {seen ring : List ProjectId}
    (hfuel : ring = [] ∨ unseen ids seen < n)
    (hinner : ∀ a ∈ seen, a ∉ ring → ∀ c ∈ next a, c ∈ seen)
    {a c : ProjectId} (ha : a ∈ seen ∨ a ∈ ringsFrom next n seen ring) (hc : c ∈ next a) :
    c ∈ seen ∨ c ∈ ringsFrom next n seen ring := by
  induction n generalizing seen ring with
  | zero =>
      have hring : ring = [] := by
        rcases hfuel with h | h
        · exact h
        · cases h
      rcases ha with ha | ha
      · exact Or.inl (hinner a ha (by simp [hring]) c hc)
      · cases ha
  | succ n ih =>
      rw [ringsFrom_succ] at ha ⊢
      split at ha
      · rename_i hempty
        rcases ha with ha | ha
        · exact Or.inl (hinner a ha (by simp_all) c hc)
        · cases ha
      · rename_i hempty
        rw [if_neg hempty]
        have hbound : unseen ids seen < n + 1 :=
          hfuel.resolve_left (by rintro rfl; exact hempty rfl)
        have hfuel' := unseen_beyond hids hbound ring
        have hinner' : ∀ y ∈ seen ++ beyond next seen ring, y ∉ beyond next seen ring →
            ∀ z ∈ next y, z ∈ seen ++ beyond next seen ring := by
          intro y hy hyBeyond z hz
          have hySeen := (List.mem_append.mp hy).resolve_right hyBeyond
          rw [List.mem_append]
          by_cases hzSeen : z ∈ seen
          · exact Or.inl hzSeen
          · by_cases hyRing : y ∈ ring
            · exact Or.inr (mem_beyond.mpr ⟨⟨y, hyRing, hz⟩, hzSeen⟩)
            · exact absurd (hinner y hySeen hyRing z hz) hzSeen
        have hnonzero : beyond next seen ring = [] ∨ 0 < n := by
          rcases hfuel' with h | h
          · exact Or.inl h
          · exact Or.inr (by omega)
        -- what is in the ring beyond is listed at once, so it need not be told apart
        have hlisted : ∀ y, y ∈ seen ++ beyond next seen ring ∨
            y ∈ ringsFrom next n (seen ++ beyond next seen ring) (beyond next seen ring) →
            y ∈ seen ∨ y ∈ ring ++
              ringsFrom next n (seen ++ beyond next seen ring) (beyond next seen ring) := by
          intro y hy
          rcases hy with hy | hy
          · rcases List.mem_append.mp hy with hy | hy
            · exact Or.inl hy
            · exact Or.inr (List.mem_append.mpr (Or.inr (subset_ringsFrom hnonzero hy)))
          · exact Or.inr (List.mem_append.mpr (Or.inr hy))
        by_cases haRing : a ∈ ring
        · by_cases hcSeen : c ∈ seen
          · exact Or.inl hcSeen
          · have hcBeyond := mem_beyond.mpr ⟨⟨a, haRing, hc⟩, hcSeen⟩
            exact hlisted c (Or.inl (List.mem_append.mpr (Or.inr hcBeyond)))
        · apply hlisted
          apply ih hfuel' hinner'
          rcases ha with ha | ha
          · exact Or.inl (List.mem_append.mpr (Or.inl ha))
          · exact Or.inr ((List.mem_append.mp ha).resolve_left haRing)

/-!
# Nodes
-/

theorem mem_ids_iff_contains {g : Graph} {id : ProjectId} : id ∈ g.ids ↔ g.contains id := by
  simp [ids, contains, node?]

theorem length_ids (g : Graph) : g.ids.length = g.nodes.length :=
  List.length_map _

theorem mem_dependencies {g : Graph} {a c : ProjectId} :
    c ∈ g.dependencies a ↔ c ∈ g.ids ∧ c ∈ g.references a := by
  simp [dependencies]

theorem mem_ids_of_mem_dependencies {g : Graph} (a c : ProjectId)
    (h : c ∈ g.dependencies a) : c ∈ g.ids :=
  (mem_dependencies.mp h).left

theorem mem_ids_of_mem_dependents {g : Graph} (a c : ProjectId)
    (h : c ∈ g.dependents a) : c ∈ g.ids := by
  rcases List.mem_map.mp h with ⟨n, hn, rfl⟩
  exact List.mem_map.mpr ⟨n, (List.mem_filter.mp hn).left, rfl⟩

theorem contains_of_mem_dependencies {g : Graph} {a c : ProjectId}
    (h : c ∈ g.dependencies a) : g.contains a := by
  have href := (mem_dependencies.mp h).right
  unfold references at href
  cases hn : g.node? a with
  | none =>
      rw [hn] at href
      cases href
  | some n =>
      simp [contains, hn]

theorem mem_dependents_of_mem_dependencies {g : Graph} {a c : ProjectId}
    (h : c ∈ g.dependencies a) : a ∈ g.dependents c := by
  have href := (mem_dependencies.mp h).right
  unfold references at href
  cases hn : g.node? a with
  | none =>
      rw [hn] at href
      cases href
  | some n =>
      rw [hn] at href
      have hid : n.id = a := by
        simpa using List.find?_some hn
      apply List.mem_map.mpr
      refine ⟨n, List.mem_filter.mpr ⟨List.mem_of_find?_eq_some hn, ?_⟩, hid⟩
      simpa using href

/-!
# Closures
-/

theorem mem_closure {g : Graph} {next : ProjectId → List ProjectId}
    (hids : ∀ a, ∀ c ∈ next a, c ∈ g.ids) {a c : ProjectId} :
    c ∈ g.closure next a ↔ g.contains a ∧ Reaches next a c := by
  unfold closure
  split
  · rename_i ha
    simp only [ha, true_and]
    have haIds := mem_ids_iff_contains.mpr ha
    have hfuel : unseen g.ids [a] < g.nodes.length :=
      length_ids g ▸ unseen_singleton_lt haIds
    constructor
    · intro hc
      rcases reaches_of_mem_ringsFrom hc with ⟨r, hr, hreach⟩
      rw [List.mem_singleton] at hr
      exact hr ▸ hreach
    · intro hreach
      have hstart : a ∈ ringsFrom next g.nodes.length [a] [a] :=
        subset_ringsFrom (Or.inr (by omega)) (List.mem_singleton_self a)
      induction hreach with
      | refl =>
          exact hstart
      | tail _ hstep ih =>
          have hmem := ringsFrom_closed hids (Or.inr hfuel)
            (by intro y hy hring; exact absurd hy hring) (Or.inr ih) hstep
          rcases hmem with hmem | hmem
          · rw [List.mem_singleton] at hmem
            exact hmem ▸ hstart
          · exact hmem
  · rename_i ha
    simp [ha]

theorem nodup_closure (g : Graph) (next : ProjectId → List ProjectId) (id : ProjectId) :
    (g.closure next id).Nodup := by
  unfold closure
  split
  · exact nodup_ringsFrom (List.nodup_singleton id) (List.Subset.refl _)
  · exact List.nodup_nil

theorem mem_withDependencies {g : Graph} {a c : ProjectId} :
    c ∈ g.withDependencies a ↔ g.contains a ∧ Reaches g.dependencies a c :=
  mem_closure mem_ids_of_mem_dependencies

theorem mem_withDependents {g : Graph} {a c : ProjectId} :
    c ∈ g.withDependents a ↔ g.contains a ∧ Reaches g.dependents a c :=
  mem_closure mem_ids_of_mem_dependents

theorem reaches_dependents_of_reaches {g : Graph} {a c : ProjectId}
    (h : Reaches g.dependencies a c) : Reaches g.dependents c a := by
  induction h with
  | refl =>
      exact .refl
  | tail _ hstep ih =>
      exact .head (mem_dependents_of_mem_dependencies hstep) ih

end Graph
end Ripple
