import Ripple.Proofs.Graph.Order
import Ripple.Proofs.Graph.References

/-!
# The order as a loop

The topological order is found by a loop over a stack of frames, each with a cursor into the
dependencies of its node. A node is marked when its frame is pushed, and listed when its frame
is popped. The loop comes to an end, and has then entered and left the nodes as the walk does.
-/

namespace Ripple
namespace Graph

/-!
# The loop
-/

inductive Mark where
  | visiting
  | done

/-- A node on the stack, and how many of its dependencies have been looked at. -/
structure Frame where
  node : ProjectId
  dependencies : List ProjectId
  cursor : Nat

structure Search where
  /-- The nodes from which no visit has been tried. -/
  starts : List ProjectId
  marks : ProjectId → Option Mark
  /-- The frame that was pushed last comes first. -/
  stack : List Frame
  order : List ProjectId

namespace Search

def start (g : Graph) : Search :=
  ⟨g.ids, fun _ => none, [], []⟩

variable (next : ProjectId → List ProjectId)

def push (s : Search) (id : ProjectId) : Search :=
  { s with
    marks := Function.update s.marks id (some .visiting)
    stack := ⟨id, next id, 0⟩ :: s.stack }

/-- Pushes a node that has no mark. -/
def visit (s : Search) (id : ProjectId) : Search :=
  match s.marks id with
  | none => s.push next id
  | some _ => s

def step (s : Search) : Option Search :=
  match s.stack with
  | [] =>
      match s.starts with
      | [] => none
      | id :: rest => some ({ s with starts := rest }.visit next id)
  | frame :: below =>
      match frame.dependencies[frame.cursor]? with
      | some id =>
          let advanced := { frame with cursor := frame.cursor + 1 }
          some ({ s with stack := advanced :: below }.visit next id)
      | none =>
          some { s with
            marks := Function.update s.marks frame.node (some .done)
            stack := below
            order := s.order ++ [frame.node] }

/-- The search goes on from one state to the other. -/
abbrev Runs : Search → Search → Prop :=
  Relation.ReflTransGen fun s s' => s.step next = some s'

end Search

/-!
# The loop and the walk
-/

variable {next : ProjectId → List ProjectId} {ids : List ProjectId}

namespace Search

/-- What is marked is what a walk has entered, and what is listed is what it has left. -/
structure Shows (s : Search) (w : Walk) : Prop where
  marks : ∀ id, s.marks id ≠ none ↔ id ∈ w.entered
  order : s.order = w.left

theorem visit_of_entered {s : Search} {w : Walk} (h : s.Shows w) {id : ProjectId}
    (hid : id ∈ w.entered) : s.visit next id = s := by
  obtain ⟨mark, hmark⟩ := Option.ne_none_iff_exists'.mp ((h.marks id).mpr hid)
  rw [visit, hmark]

theorem visit_of_not_entered {s : Search} {w : Walk} (h : s.Shows w) {id : ProjectId}
    (hid : id ∉ w.entered) : s.visit next id = s.push next id := by
  have hmark : s.marks id = none := by
    by_contra hne
    exact hid ((h.marks id).mp hne)
  rw [visit, hmark]

theorem Shows.push {s : Search} {w : Walk} (h : s.Shows w) (id : ProjectId) :
    (s.push next id).Shows { w with entered := id :: w.entered } where
  marks x := by
    change Function.update s.marks id (some .visiting) x ≠ none ↔ x ∈ id :: w.entered
    rw [Function.update_apply, List.mem_cons]
    by_cases hx : x = id
    · simp [hx]
    · simp [hx, h.marks x]
  order := h.order

/-- From a state the loop comes to one with some starts and some stack that shows a walk. -/
def Comes (next : ProjectId → List ProjectId) (s : Search) (starts : List ProjectId)
    (stack : List Frame) (w : Walk) : Prop :=
  ∃ s', Runs next s s' ∧ s'.starts = starts ∧ s'.stack = stack ∧ s'.Shows w

theorem Comes.after {s s' : Search} {starts : List ProjectId} {stack : List Frame} {w : Walk}
    (hstep : s.step next = some s') (h : Comes next s' starts stack w) :
    Comes next s starts stack w := by
  obtain ⟨t, hruns, h⟩ := h
  exact ⟨t, .head hstep hruns, h⟩

theorem Comes.andThen {s : Search} {starts starts' : List ProjectId}
    {stack stack' : List Frame} {w w' : Walk} (h : Comes next s starts stack w)
    (hthen : ∀ t : Search, t.starts = starts → t.stack = stack → t.Shows w →
      Comes next t starts' stack' w') : Comes next s starts' stack' w' := by
  obtain ⟨t, hruns, hstarts, hstack, hshows⟩ := h
  obtain ⟨t', hruns', h⟩ := hthen t hstarts hstack hshows
  exact ⟨t', hruns.trans hruns', h⟩

/-- While at most so many nodes are left to enter, the loop does what a walk of that depth
does: the node that is visited is pushed, and popped when the walk leaves it. -/
def Follows (next : ProjectId → List ProjectId) (ids : List ProjectId) (depth : Nat) : Prop :=
  ∀ (s : Search) (w : Walk) (id : ProjectId), s.Shows w → id ∈ ids →
    unseen ids w.entered ≤ depth →
    Comes next (s.visit next id) s.starts s.stack (walkFrom next depth w id)

end Search

theorem entered_foldl {visit : Walk → ProjectId → Walk}
    (hvisit : ∀ w id, ∀ x ∈ w.entered, x ∈ (visit w id).entered) (xs : List ProjectId)
    (w : Walk) : ∀ x ∈ w.entered, x ∈ (xs.foldl visit w).entered := by
  induction xs generalizing w with
  | nil => exact fun _ hx => hx
  | cons id xs ih => exact fun x hx => ih (visit w id) x (hvisit w id x hx)

theorem entered_walkFrom (depth : Nat) (w : Walk) (id : ProjectId) :
    ∀ x ∈ w.entered, x ∈ (walkFrom next depth w id).entered := by
  induction depth generalizing w id with
  | zero => exact fun _ hx => hx
  | succ depth ih =>
      intro x hx
      rw [walkFrom]
      by_cases hid : id ∈ w.entered
      · rwa [if_pos hid]
      · rw [if_neg hid]
        exact entered_foldl ih (next id) _ x (List.mem_cons_of_mem id hx)

theorem unseen_walkFrom_le (depth : Nat) (w : Walk) (id : ProjectId) :
    unseen ids (walkFrom next depth w id).entered ≤ unseen ids w.entered :=
  unseen_le_of_subset (entered_walkFrom depth w id)

namespace Search

variable {depth : Nat}

/-- The cursor of a frame runs through the dependencies that are left. -/
theorem comes_dependencies (hfollows : Follows next ids depth) {node : ProjectId}
    {below : List Frame} (tried left : List ProjectId) {s : Search} {w : Walk} (h : s.Shows w)
    (hstack : s.stack = ⟨node, tried ++ left, tried.length⟩ :: below)
    (hids : ∀ c ∈ left, c ∈ ids) (hdepth : unseen ids w.entered ≤ depth) :
    Comes next s s.starts (⟨node, tried ++ left, (tried ++ left).length⟩ :: below)
      (left.foldl (walkFrom next depth) w) := by
  induction left generalizing tried s w with
  | nil =>
      refine ⟨s, .refl, rfl, ?_, h⟩
      rw [hstack, List.append_nil]
  | cons c left ih =>
      obtain ⟨hc, hleft⟩ := List.forall_mem_cons.mp hids
      have hstep : s.step next =
          some ({ s with stack := ⟨node, tried ++ c :: left, tried.length + 1⟩ :: below }.visit
            next c) := by
        simp [step, hstack]
      have hvisit := hfollows
        { s with stack := ⟨node, tried ++ c :: left, tried.length + 1⟩ :: below } w c
        ⟨h.marks, h.order⟩ hc hdepth
      refine .after hstep (hvisit.andThen fun t hstarts hstack ht => ?_)
      have htried : tried ++ c :: left = (tried ++ [c]) ++ left := by simp
      have hlength : tried.length + 1 = (tried ++ [c]).length := by simp
      simp only at hstarts hstack
      rw [htried, hlength] at hstack
      rw [htried, ← hstarts]
      exact ih (tried ++ [c]) ht hstack hleft
        (Nat.le_trans (unseen_walkFrom_le depth w c) hdepth)

/-- Without a frame on the stack the loop goes through the starts. -/
theorem comes_starts (hfollows : Follows next ids depth) (starts : List ProjectId) {s : Search}
    {w : Walk} (h : s.Shows w) (hstarts : s.starts = starts) (hstack : s.stack = [])
    (hids : ∀ c ∈ starts, c ∈ ids) (hdepth : unseen ids w.entered ≤ depth) :
    Comes next s [] [] (starts.foldl (walkFrom next depth) w) := by
  induction starts generalizing s w with
  | nil => exact ⟨s, .refl, hstarts, hstack, h⟩
  | cons c starts ih =>
      obtain ⟨hc, hids⟩ := List.forall_mem_cons.mp hids
      have hstep : s.step next = some ({ s with starts := starts }.visit next c) := by
        simp [step, hstack, hstarts]
      have hvisit := hfollows { s with starts := starts } w c ⟨h.marks, h.order⟩ hc hdepth
      refine .after hstep (hvisit.andThen fun t hstarts hstack' ht => ?_)
      exact ih ht hstarts (hstack'.trans hstack) hids
        (Nat.le_trans (unseen_walkFrom_le depth w c) hdepth)

theorem follows (hnext : ∀ a, ∀ c ∈ next a, c ∈ ids) (depth : Nat) :
    Follows next ids depth := by
  induction depth with
  | zero =>
      intro s w id h hid hdepth
      have hin : id ∈ w.entered := by
        by_contra hnew
        have hlt := unseen_cons_lt hid hnew
        omega
      rw [visit_of_entered h hin]
      exact ⟨s, .refl, rfl, rfl, h⟩
  | succ depth ih =>
      intro s w id h hid hdepth
      rw [walkFrom]
      by_cases hin : id ∈ w.entered
      · rw [visit_of_entered h hin, if_pos hin]
        exact ⟨s, .refl, rfl, rfl, h⟩
      · have hlt := unseen_cons_lt hid hin
        rw [visit_of_not_entered h hin, if_neg hin]
        refine (comes_dependencies ih [] (next id) (h.push id) rfl (hnext id)
          (by omega : unseen ids (id :: w.entered) ≤ depth)).andThen fun t hstarts hstack ht => ?_
        -- the frame has no dependency left, and its node is listed
        have hstep : t.step next = some { t with
            marks := Function.update t.marks id (some .done)
            stack := s.stack
            order := t.order ++ [id] } := by
          simp [step, hstack]
        refine ⟨_, .single hstep, hstarts, rfl, fun x => ?_, congrArg (· ++ [id]) ht.order⟩
        change Function.update t.marks id (some .done) x ≠ none ↔ _
        rw [Function.update_apply]
        by_cases hx : x = id
        · have hleft := entered_foldl (@entered_walkFrom next depth) (next id)
            { w with entered := id :: w.entered } id List.mem_cons_self
          simpa [hx] using hleft
        · rw [if_neg hx]
          exact ht.marks x

end Search

/-!
# The order of the loop
-/

variable {g : Graph}

theorem search_walk (hnext : ∀ a, ∀ c ∈ next a, c ∈ g.ids) :
    ∃ s, Search.Runs next (.start g) s ∧ s.step next = none ∧ s.order = g.walk next := by
  have hstart : (Search.start g).Shows ⟨[], []⟩ :=
    ⟨fun id => by simp [Search.start], rfl⟩
  have hdepth : unseen g.ids [] ≤ g.nodes.length := by
    rw [← length_ids]
    simpa [unseen] using g.ids.toFinset_card_le
  obtain ⟨s, hruns, hstarts, hstack, hshows⟩ := Search.comes_starts
    (Search.follows hnext g.nodes.length) g.ids hstart rfl rfl (fun _ h => h) hdepth
  refine ⟨s, hruns, ?_, hshows.order⟩
  simp [Search.step, hstack, hstarts]

/-- The first id comes before the second one in a list. -/
def Before (xs : List ProjectId) (a c : ProjectId) : Prop :=
  ∃ front back, xs = front ++ c :: back ∧ a ∈ front

theorem before_of_effective {id c : ProjectId} (hid : id ∈ g.ids)
    (hc : c ∈ g.effectiveDependencies id) : Before g.topologicalOrder c id := by
  obtain ⟨front, back, heq⟩ := List.append_of_mem (mem_topologicalOrder.mpr hid)
  have hpairwise := pairwise_topologicalOrder g
  have hmem := mem_topologicalOrder.mpr (mem_ids_of_effective hc)
  rw [heq] at hpairwise hmem
  exact ⟨front, back, heq, mem_before_of_pairwise hpairwise hc hmem⟩

/-- The loop comes to an end, and lists every project of a graph once, behind its effective
dependencies. Without a cycle of references those are all its dependencies. -/
theorem topologicalOrder_complete (w : Workspace) :
    (∃ s, Search.Runs (build w).dependencies (.start (build w)) s ∧
      s.step (build w).dependencies = none ∧ s.order = (build w).topologicalOrder) ∧
      (build w).topologicalOrder.Nodup ∧
      (∀ id, id ∈ (build w).topologicalOrder ↔ id ∈ (build w).ids) ∧
      (∀ id ∈ (build w).ids, ∀ c ∈ (build w).effectiveDependencies id,
        Before (build w).topologicalOrder c id) ∧
      ((∀ id, ¬ Relation.TransGen (Refers w) id id) →
        ∀ id ∈ (build w).ids, ∀ c ∈ (build w).dependencies id,
          Before (build w).topologicalOrder c id) := by
  refine ⟨search_walk mem_ids_of_mem_dependencies, nodup_topologicalOrder _,
    fun _ => mem_topologicalOrder, fun _ hid _ hc => before_of_effective hid hc, ?_⟩
  intro hacyclic id hid c hc
  rw [← effectiveDependencies_of_acyclic hacyclic id] at hc
  exact before_of_effective hid hc

end Graph
end Ripple
