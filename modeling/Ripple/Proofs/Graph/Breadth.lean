import Mathlib.Order.Bounds.Basic
import Ripple.Proofs.Graph.References

/-!
# Closures in breadth

A closure is found by a loop over a queue. A project is put into the queue when it is first
seen, and listed when its turn comes. The loop comes to an end and lists the rings one after
the other; a ring holds the projects at one distance.
-/

namespace Ripple
namespace Graph

/-!
# The loop
-/

structure Spread where
  seen : List ProjectId
  /-- What has been seen and is still to be listed. -/
  queue : List ProjectId
  order : List ProjectId

namespace Spread

def start (id : ProjectId) : Spread :=
  ⟨[id], [id], []⟩

/-- Puts a project that has not been seen at the end of the queue. -/
def meet (s : Spread) (id : ProjectId) : Spread :=
  if id ∈ s.seen then s
  else { s with seen := s.seen ++ [id], queue := s.queue ++ [id] }

def step (next : ProjectId → List ProjectId) (s : Spread) : Option Spread :=
  match s.queue with
  | [] => none
  | id :: rest => some ((next id).foldl meet { s with queue := rest, order := s.order ++ [id] })

/-- The loop goes on from one state to the other. -/
abbrev Runs (next : ProjectId → List ProjectId) : Spread → Spread → Prop :=
  Relation.ReflTransGen fun s s' => s.step next = some s'

/-- From one project the loop comes to an end, with a list. -/
def Ends (next : ProjectId → List ProjectId) (id : ProjectId) (xs : List ProjectId) : Prop :=
  ∃ s, Runs next (start id) s ∧ s.step next = none ∧ s.order = xs

end Spread

/-!
# The loop and the rings

What is new among some projects is put into the queue in the order in which it is met. When
all projects of a ring have been listed, the queue holds the ring beyond.
-/

variable {next : ProjectId → List ProjectId} {ids : List ProjectId}

def unmet (seen xs : List ProjectId) : List ProjectId :=
  xs.eraseDups.filter fun id => id ∉ seen

theorem beyond_eq_unmet (seen ring : List ProjectId) :
    beyond next seen ring = unmet seen (ring.flatMap next) :=
  rfl

theorem unmet_concat (seen xs : List ProjectId) (x : ProjectId) :
    unmet seen (xs ++ [x]) =
      unmet seen xs ++ if x ∈ seen ++ unmet seen xs then [] else [x] := by
  unfold unmet
  rw [List.eraseDups_append, List.filter_append]
  congr 1
  by_cases hxs : x ∈ xs
  · by_cases hseen : x ∈ seen <;> simp [List.removeAll, hxs, hseen]
  · by_cases hseen : x ∈ seen <;> simp [List.removeAll, hxs, hseen, List.eraseDups_cons]

namespace Spread

theorem meet_unmet (seen queue order xs : List ProjectId) (x : ProjectId) :
    meet ⟨seen ++ unmet seen xs, queue ++ unmet seen xs, order⟩ x =
      ⟨seen ++ unmet seen (xs ++ [x]), queue ++ unmet seen (xs ++ [x]), order⟩ := by
  rw [meet, unmet_concat]
  split
  · rw [List.append_nil]
  · rw [List.append_assoc, List.append_assoc]

theorem foldl_meet (seen queue order xs ys : List ProjectId) :
    ys.foldl meet ⟨seen ++ unmet seen xs, queue ++ unmet seen xs, order⟩ =
      ⟨seen ++ unmet seen (xs ++ ys), queue ++ unmet seen (xs ++ ys), order⟩ := by
  induction ys generalizing xs with
  | nil => rw [List.append_nil, List.foldl_nil]
  | cons y ys ih => rw [List.foldl_cons, meet_unmet, ih, List.append_assoc, List.singleton_append]

/-- The projects of a ring are listed one by one, and the queue fills up behind them. -/
theorem runs_listed (seen order listed left : List ProjectId) :
    Runs next
      ⟨seen ++ unmet seen (listed.flatMap next), left ++ unmet seen (listed.flatMap next), order⟩
      ⟨seen ++ beyond next seen (listed ++ left), beyond next seen (listed ++ left),
        order ++ left⟩ := by
  induction left generalizing order listed with
  | nil =>
      rw [beyond_eq_unmet, List.append_nil, List.append_nil, List.nil_append]
  | cons x left ih =>
      have hstep : step next ⟨seen ++ unmet seen (listed.flatMap next),
          x :: left ++ unmet seen (listed.flatMap next), order⟩ =
          some ⟨seen ++ unmet seen ((listed ++ [x]).flatMap next),
            left ++ unmet seen ((listed ++ [x]).flatMap next), order ++ [x]⟩ := by
        rw [List.flatMap_append, List.flatMap_singleton]
        exact congrArg some (foldl_meet seen left (order ++ [x]) (listed.flatMap next) (next x))
      have hrest := ih (order ++ [x]) (listed ++ [x])
      rw [List.append_assoc, List.append_assoc] at hrest
      exact .head hstep hrest

theorem runs_ring (seen ring order : List ProjectId) :
    Runs next ⟨seen, ring, order⟩
      ⟨seen ++ beyond next seen ring, beyond next seen ring, order ++ ring⟩ := by
  have hruns := @runs_listed next seen order [] ring
  rw [List.flatMap_nil, show unmet seen [] = [] from rfl, List.append_nil, List.append_nil] at hruns
  exact hruns

/-- The loop lists ring after ring, and there are no more rings than nodes to be seen. -/
theorem runs_ringsFrom (hids : ∀ a, ∀ c ∈ next a, c ∈ ids) {n : Nat} {seen ring : List ProjectId}
    (hfuel : ring = [] ∨ unseen ids seen < n) (order : List ProjectId) :
    ∃ s, Runs next ⟨seen, ring, order⟩ s ∧ s.step next = none ∧
      s.order = order ++ ringsFrom next n seen ring := by
  induction n generalizing seen ring order with
  | zero =>
      have hring : ring = [] := hfuel.resolve_right (Nat.not_lt_zero _)
      rw [hring]
      exact ⟨_, .refl, rfl, (List.append_nil order).symm⟩
  | succ n ih =>
      rw [ringsFrom_succ]
      cases ring with
      | nil => exact ⟨_, .refl, rfl, (List.append_nil order).symm⟩
      | cons x ring =>
          have hbound : unseen ids seen < n + 1 := hfuel.resolve_left (List.cons_ne_nil x ring)
          have hfuel' := unseen_beyond hids hbound (x :: ring)
          rcases ih hfuel' (order ++ x :: ring) with ⟨s, hruns, hend, horder⟩
          refine ⟨s, (runs_ring seen (x :: ring) order).trans hruns, hend, ?_⟩
          rw [horder, List.append_assoc]
          rfl

theorem ends_closure {g : Graph} (hids : ∀ a, ∀ c ∈ next a, c ∈ g.ids) {id : ProjectId}
    (hid : id ∈ g.ids) : Ends next id (g.closure next id) := by
  have hfuel : [id] = [] ∨ unseen g.ids [id] < g.nodes.length :=
    .inr (length_ids g ▸ unseen_singleton_lt hid)
  rcases runs_ringsFrom hids hfuel [] with ⟨s, hruns, hend, horder⟩
  rw [List.nil_append] at horder
  rw [closure, if_pos (mem_ids_iff_contains.mp hid)]
  exact ⟨s, hruns, hend, horder⟩

end Spread

/-!
# Distances
-/

/-- There is a way of so many steps. -/
inductive Way (r : ProjectId → ProjectId → Prop) (a : ProjectId) : Nat → ProjectId → Prop where
  | here : Way r a 0 a
  | step {n : Nat} {c d : ProjectId} (h : Way r a n c) (hstep : r c d) : Way r a (n + 1) d

/-- A shortest way has so many steps. -/
def Distance (r : ProjectId → ProjectId → Prop) (a c : ProjectId) (n : Nat) : Prop :=
  IsLeast {n | Way r a n c} n

variable {r : ProjectId → ProjectId → Prop} {a : ProjectId}

/-- The ring holds all that is so many steps away, and what has been seen is all that is not
farther away. -/
structure Rings (r : ProjectId → ProjectId → Prop) (a : ProjectId) (n : Nat)
    (seen ring : List ProjectId) : Prop where
  seen : ∀ x, x ∈ seen ↔ ∃ m ≤ n, Way r a m x
  ring : ∀ x, x ∈ ring ↔ Distance r a x n

theorem rings_start (r : ProjectId → ProjectId → Prop) (a : ProjectId) :
    Rings r a 0 [a] [a] where
  seen x := by
    rw [List.mem_singleton]
    constructor
    · intro hx
      rw [hx]
      exact ⟨0, Nat.le_refl 0, .here⟩
    · intro hx
      rcases hx with ⟨m, hm, hway⟩
      rw [Nat.le_zero.mp hm] at hway
      cases hway
      rfl
  ring x := by
    rw [List.mem_singleton]
    constructor
    · intro hx
      rw [hx]
      exact ⟨.here, fun m _ => Nat.zero_le m⟩
    · intro hx
      cases hx.left
      rfl

theorem Rings.mem_beyond {n : Nat} {seen ring : List ProjectId} (h : Rings r a n seen ring)
    (hnext : ∀ c d, d ∈ next c ↔ r c d) {x : ProjectId} :
    x ∈ beyond next seen ring ↔ Distance r a x (n + 1) := by
  rw [Graph.mem_beyond]
  constructor
  · intro hx
    rcases hx with ⟨⟨c, hc, hstep⟩, hnew⟩
    constructor
    · exact Way.step ((h.ring c).mp hc).left ((hnext c x).mp hstep)
    · intro m hway
      by_contra hlt
      exact hnew ((h.seen x).mpr ⟨m, Nat.lt_succ_iff.mp (Nat.lt_of_not_le hlt), hway⟩)
  · intro hx
    have hnew : x ∉ seen := by
      intro hseen
      rcases (h.seen x).mp hseen with ⟨m, hm, hway⟩
      exact Nat.not_succ_le_self n (Nat.le_trans (hx.right hway) hm)
    cases hx.left with
    | step hway hstep =>
        rename_i c
        -- a shorter way to the step before would be a shorter way on
        have hc : Distance r a c n :=
          ⟨hway, fun m hshort => Nat.le_of_succ_le_succ (hx.right (Way.step hshort hstep))⟩
        exact ⟨⟨c, (h.ring c).mpr hc, (hnext c x).mpr hstep⟩, hnew⟩

theorem Rings.beyond {n : Nat} {seen ring : List ProjectId} (h : Rings r a n seen ring)
    (hnext : ∀ c d, d ∈ next c ↔ r c d) :
    Rings r a (n + 1) (seen ++ beyond next seen ring) (beyond next seen ring) where
  ring _ := h.mem_beyond hnext
  seen x := by
    rw [List.mem_append, h.mem_beyond hnext]
    constructor
    · intro hx
      rcases hx with hx | hx
      · rcases (h.seen x).mp hx with ⟨m, hm, hway⟩
        exact ⟨m, Nat.le_succ_of_le hm, hway⟩
      · exact ⟨n + 1, Nat.le_refl _, hx.left⟩
    · intro hx
      rcases hx with ⟨m, hm, hway⟩
      by_cases hseen : x ∈ seen
      · exact Or.inl hseen
      · apply Or.inr
        have hfar : ∀ k, Way r a k x → n + 1 ≤ k := by
          intro k hk
          by_contra hlt
          exact hseen ((h.seen x).mpr ⟨k, Nat.lt_succ_iff.mp (Nat.lt_of_not_le hlt), hk⟩)
        have hlast : m = n + 1 := Nat.le_antisymm hm (hfar m hway)
        exact ⟨hlast ▸ hway, hfar⟩

theorem Rings.distance_of_mem {n fuel : Nat} {seen ring : List ProjectId}
    (h : Rings r a n seen ring) (hnext : ∀ c d, d ∈ next c ↔ r c d) {x : ProjectId}
    (hx : x ∈ ringsFrom next fuel seen ring) : ∃ m, n ≤ m ∧ Distance r a x m := by
  induction fuel generalizing n seen ring with
  | zero => cases hx
  | succ fuel ih =>
      rw [ringsFrom_succ] at hx
      split at hx
      · cases hx
      · rcases List.mem_append.mp hx with hx | hx
        · exact ⟨n, Nat.le_refl n, (h.ring x).mp hx⟩
        · rcases ih (h.beyond hnext) hx with ⟨m, hm, hdistance⟩
          exact ⟨m, Nat.le_of_succ_le hm, hdistance⟩

/-- Later projects are not nearer. -/
theorem Rings.pairwise {n fuel : Nat} {seen ring : List ProjectId} (h : Rings r a n seen ring)
    (hnext : ∀ c d, d ∈ next c ↔ r c d) :
    (ringsFrom next fuel seen ring).Pairwise fun x y =>
      ∃ m k, Distance r a x m ∧ Distance r a y k ∧ m ≤ k := by
  induction fuel generalizing n seen ring with
  | zero => exact List.Pairwise.nil
  | succ fuel ih =>
      rw [ringsFrom_succ]
      split
      · exact List.Pairwise.nil
      · apply List.pairwise_append.mpr
        refine ⟨?_, ih (h.beyond hnext), ?_⟩
        · apply List.pairwise_of_forall_mem_list
          intro x hx y hy
          exact ⟨n, n, (h.ring x).mp hx, (h.ring y).mp hy, Nat.le_refl n⟩
        · intro x hx y hy
          rcases (h.beyond hnext).distance_of_mem hnext hy with ⟨m, hm, hdistance⟩
          exact ⟨n, m, (h.ring x).mp hx, hdistance, Nat.le_of_succ_le hm⟩

/-!
# Closures of a workspace
-/

/-- The list holds the project first, then all that it leads to, each once and nothing before
what is nearer. -/
structure Lists (r : ProjectId → ProjectId → Prop) (a : ProjectId) (xs : List ProjectId) :
    Prop where
  first : xs.head? = some a
  nodup : xs.Nodup
  mem : ∀ c, c ∈ xs ↔ c = a ∨ Relation.TransGen r a c
  sorted : xs.Pairwise fun x y => ∃ m k, Distance r a x m ∧ Distance r a y k ∧ m ≤ k

theorem lists_closure {g : Graph} (hids : ∀ a, ∀ c ∈ next a, c ∈ g.ids)
    (hnext : ∀ c d, d ∈ next c ↔ r c d) (ha : a ∈ g.ids) : Lists r a (g.closure next a) where
  first := by
    have hpositive : 0 < g.nodes.length := length_ids g ▸ List.length_pos_of_mem ha
    rw [closure, if_pos (mem_ids_iff_contains.mp ha)]
    cases hn : g.nodes.length with
    | zero => omega
    | succ n => rfl
  nodup := nodup_closure g next a
  mem c := by
    have hr : (fun c d => d ∈ next c) = r := by
      funext c d
      exact propext (hnext c d)
    rw [mem_closure hids, Reaches, hr, Relation.reflTransGen_iff_eq_or_transGen]
    exact and_iff_right (mem_ids_iff_contains.mp ha)
  sorted := by
    rw [closure, if_pos (mem_ids_iff_contains.mp ha)]
    exact (rings_start r a).pairwise hnext

theorem mem_withDependencies_build {w : Workspace} {a c : ProjectId} :
    c ∈ (build w).withDependencies a ↔
      a ∈ validIds w ∧ Relation.ReflTransGen (Refers w) a c := by
  have hr : (fun a c => c ∈ (build w).dependencies a) = Refers w := by
    funext a c
    exact propext mem_dependencies_build
  rw [mem_withDependencies, ← mem_ids_iff_contains, ids_build, Reaches, hr]

/-- One project is downstream of another exactly if that is upstream of it. -/
theorem mem_withDependents_iff_mem_withDependencies {w : Workspace} {a c : ProjectId} :
    c ∈ (build w).withDependents a ↔ a ∈ (build w).withDependencies c := by
  rw [mem_withDependents_build, mem_withDependencies_build]
  have hvalid (hreach : Relation.ReflTransGen (Refers w) c a) :
      a ∈ validIds w ↔ c ∈ validIds w := by
    induction hreach with
    | refl => exact Iff.rfl
    | tail _ hstep ih => exact ⟨fun _ => ih.mp hstep.left, fun _ => hstep.right.left⟩
  exact and_congr_left hvalid

/-- For every project of the graph the loop over the queue comes to an end, downstream and
upstream. It lists the project first, then the others that lead to it, or that it leads to,
each once and in the order of their distances. Both directions agree, and for an unknown id
nothing is listed. -/
theorem closures_exact (w : Workspace) :
    (∀ id ∈ (build w).ids,
      Spread.Ends (build w).dependents id ((build w).withDependents id) ∧
      Lists (Function.swap (Refers w)) id ((build w).withDependents id) ∧
      Spread.Ends (build w).dependencies id ((build w).withDependencies id) ∧
      Lists (Refers w) id ((build w).withDependencies id)) ∧
    (∀ a c, c ∈ (build w).withDependents a ↔ a ∈ (build w).withDependencies c) ∧
    ∀ id, id ∉ (build w).ids →
      (build w).withDependents id = [] ∧ (build w).withDependencies id = [] := by
  refine ⟨fun id hid => ?_, fun a c => mem_withDependents_iff_mem_withDependencies,
    fun id hid => ?_⟩
  · have hdown := mem_ids_of_mem_dependents (g := build w)
    have hup := mem_ids_of_mem_dependencies (g := build w)
    exact ⟨Spread.ends_closure hdown hid,
      lists_closure hdown (fun _ _ => mem_dependents_build) hid, Spread.ends_closure hup hid,
      lists_closure hup (fun _ _ => mem_dependencies_build) hid⟩
  · have hcontains : ¬ (build w).contains id := fun h => hid (mem_ids_iff_contains.mpr h)
    exact ⟨if_neg hcontains, if_neg hcontains⟩

end Graph
end Ripple
