import Ripple.Proofs.Graph.Groups
import Ripple.Proofs.Graph.Order

/-!
# Groups in one walk

All groups are found in one walk along the references. What the walk has entered stays on a
stack until its group is complete, and a visit tells how far down the stack the node leads. If
that is no farther than to the node itself, then what stands on the stack from the node on is
its group. So the groups are complete in the order in which the walk leaves their last members.
-/

namespace Ripple
namespace Graph

/-- A walk that keeps what it has entered, the oldest first, until the group is complete. -/
structure Grouping extends Walk where
  stack : List ProjectId
  groups : List (List ProjectId)

namespace Grouping

def start : Grouping :=
  ⟨⟨[], []⟩, [], []⟩

def enter (s : Grouping) (id : ProjectId) : Grouping :=
  { s with entered := id :: s.entered, stack := s.stack ++ [id] }

def leave (s : Grouping) (id : ProjectId) : Grouping :=
  { s with left := s.left ++ [id] }

/-- What stands on the stack from a place on is a group. -/
def close (s : Grouping) (place : Nat) : Grouping :=
  { s with stack := s.stack.take place, groups := s.groups ++ [s.stack.drop place] }

/-- Visits one more node, and keeps the lower place. -/
def probe (visit : Grouping → ProjectId → Grouping × Nat) (r : Grouping × Nat)
    (id : ProjectId) : Grouping × Nat :=
  ((visit r.1 id).1, min r.2 (visit r.1 id).2)

/-- Leaves a node that is at a place on the stack. Its group is complete if the node leads to no
lower place. -/
def finish (own : Nat) (id : ProjectId) (r : Grouping × Nat) : Grouping × Nat :=
  if r.2 = own then ((r.1.leave id).close own, own) else (r.1.leave id, r.2)

/-- Visits a node and what it leads to; the first argument bounds the depth. The number is the
lowest place on the stack that the node is found to lead to. -/
def visit (next : ProjectId → List ProjectId) : Nat → Grouping → ProjectId → Grouping × Nat
  | 0, s, id => (s, s.stack.idxOf id)
  | depth + 1, s, id =>
      if id ∈ s.entered then (s, s.stack.idxOf id)
      else
        finish s.stack.length id
          ((next id).foldl (probe (visit next depth)) (s.enter id, s.stack.length))

end Grouping

/-- The groups of a graph, as a walk completes them. -/
def components (g : Graph) (next : ProjectId → List ProjectId) : List (List ProjectId) :=
  (g.ids.foldl (fun s id => (Grouping.visit next g.nodes.length s id).1) .start).groups

/-- The members of a group in the order of the graph. -/
def inOrder (g : Graph) (members : List ProjectId) : List ProjectId :=
  members.mergeSort fun a c => g.ids.idxOf a ≤ g.ids.idxOf c

variable {w : Workspace} {next : ProjectId → List ProjectId} {id c : ProjectId}

/-!
# Lists
-/

theorem inOrder_of_perm {g : Graph} (hnodup : g.ids.Nodup) {xs members : List ProjectId}
    (hsub : xs.Sublist g.ids) (hperm : members.Perm xs) : g.inOrder members = xs := by
  have hids : g.ids.Pairwise fun a c => g.ids.idxOf a ≤ g.ids.idxOf c := by
    rw [List.pairwise_iff_getElem]
    intro i j hi hj hij
    rw [hnodup.idxOf_getElem, hnodup.idxOf_getElem]
    exact hij.le
  have hsorted : (g.inOrder members).Pairwise fun a c => g.ids.idxOf a ≤ g.ids.idxOf c := by
    have h : (g.inOrder members).Pairwise fun a c => decide (g.ids.idxOf a ≤ g.ids.idxOf c) :=
      List.pairwise_mergeSort (by simpa using fun _ _ _ => Nat.le_trans)
        (by simpa using fun _ _ => Nat.le_total _ _) members
    simpa using h
  have hperm' : (g.inOrder members).Perm xs := (List.mergeSort_perm _ _).trans hperm
  refine hperm'.eq_of_pairwise ?_ hsorted (hids.sublist hsub)
  intro a c _ hc hle hle'
  exact (List.idxOf_inj (hsub.subset hc)).mp (Nat.le_antisymm hle' hle) |>.symm

/-- Every element where it occurs last. -/
def lastOnes {α : Type} [BEq α] (xs : List α) : List α :=
  xs.reverse.eraseDups.reverse

theorem lastOnes_concat {α : Type} [BEq α] (xs : List α) (a : α) :
    lastOnes (xs ++ [a]) = lastOnes (xs.filter fun x => !x == a) ++ [a] := by
  simp [lastOnes, List.eraseDups_cons, List.filter_reverse]

/-!
# The walk

What is kept besides makes no difference to the walk.
-/

namespace Grouping

theorem toWalk_foldl {visit : Grouping → ProjectId → Grouping × Nat}
    {walk : Walk → ProjectId → Walk} (h : ∀ s id, (visit s id).1.toWalk = walk s.toWalk id)
    (xs : List ProjectId) (r : Grouping × Nat) :
    (xs.foldl (probe visit) r).1.toWalk = xs.foldl walk r.1.toWalk := by
  induction xs generalizing r with
  | nil => rfl
  | cons x xs ih =>
      rw [List.foldl_cons, List.foldl_cons, ih, ← h]
      rfl

theorem toWalk_finish (own : Nat) (id : ProjectId) (r : Grouping × Nat) :
    (finish own id r).1.toWalk = { r.1.toWalk with left := r.1.left ++ [id] } := by
  unfold finish
  split <;> rfl

theorem toWalk_visit (depth : Nat) (s : Grouping) (id : ProjectId) :
    (visit next depth s id).1.toWalk = walkFrom next depth s.toWalk id := by
  induction depth generalizing s id with
  | zero => rfl
  | succ depth ih =>
      rw [visit, walkFrom]
      by_cases hin : id ∈ s.entered
      · rw [if_pos hin, if_pos hin]
      · rw [if_neg hin, if_neg hin, toWalk_finish, toWalk_foldl ih]
        rfl

/-!
# What is off the stack

A node that has been entered and is off the stack leads to such nodes only, and its group has
been found.
-/

structure Sound (w : Workspace) (s : Grouping) : Prop where
  entered_ids : ∀ x ∈ s.entered, x ∈ validIds w
  left_entered : ∀ x ∈ s.left, x ∈ s.entered
  stack_entered : ∀ x ∈ s.stack, x ∈ s.entered
  nodup : s.stack.Nodup
  closed : ∀ x, (x ∈ s.entered ∧ x ∉ s.stack) → ∀ c, Refers w x c → c ∈ s.entered ∧ c ∉ s.stack
  groups : s.groups.map (build w).inOrder =
    lastOnes ((s.left.filter fun x => x ∉ s.stack).map (build w).group)

variable {s : Grouping}

theorem sound_start (w : Workspace) : start.Sound w where
  entered_ids _ hx := absurd hx List.not_mem_nil
  left_entered _ hx := absurd hx List.not_mem_nil
  stack_entered _ hx := absurd hx List.not_mem_nil
  nodup := List.nodup_nil
  closed _ hx := absurd hx.left List.not_mem_nil
  groups := rfl

theorem Sound.enter (hs : s.Sound w) (hid : id ∈ validIds w) (hnew : id ∉ s.entered) :
    (s.enter id).Sound w where
  entered_ids := List.forall_mem_cons.mpr ⟨hid, hs.entered_ids⟩
  left_entered x hx := List.mem_cons_of_mem id (hs.left_entered x hx)
  stack_entered x hx := by
    rcases List.mem_append.mp hx with hx | hx
    · exact List.mem_cons_of_mem id (hs.stack_entered x hx)
    · exact List.mem_singleton.mp hx ▸ List.mem_cons_self
  nodup := by
    refine List.nodup_append.mpr ⟨hs.nodup, List.nodup_singleton id, ?_⟩
    intro x hx y hy heq
    exact hnew (hs.stack_entered id (List.mem_singleton.mp hy ▸ heq ▸ hx))
  closed x hx c hc := by
    simp only [Grouping.enter, List.mem_cons, List.mem_append, List.not_mem_nil, or_false,
      not_or] at hx ⊢
    rcases hs.closed x ⟨hx.left.resolve_left hx.right.right, hx.right.left⟩ c hc with ⟨hin, hoff⟩
    exact ⟨.inr hin, hoff, fun heq => hnew (heq ▸ hin)⟩
  groups := by
    refine hs.groups.trans (congrArg (fun xs => lastOnes (List.map (build w).group xs)) ?_)
    apply List.filter_congr
    intro x hx
    have hne : x ≠ id := fun heq => hnew (heq ▸ hs.left_entered x hx)
    simp [Grouping.enter, hne]

/-- A node that is left stays on the stack as long as its group is not complete. -/
theorem Sound.leave (hs : s.Sound w) (hid : id ∈ s.stack) : (s.leave id).Sound w where
  entered_ids := hs.entered_ids
  left_entered x hx := by
    rcases List.mem_append.mp hx with hx | hx
    · exact hs.left_entered x hx
    · exact List.mem_singleton.mp hx ▸ hs.stack_entered id hid
  stack_entered := hs.stack_entered
  nodup := hs.nodup
  closed := hs.closed
  groups := by
    have hsame : (s.left ++ [id]).filter (fun x => x ∉ s.stack) =
        s.left.filter fun x => x ∉ s.stack := by
      rw [List.filter_append, List.filter_cons_of_neg (by simpa using hid), List.filter_nil,
        List.append_nil]
    exact hs.groups.trans (congrArg (fun xs => lastOnes (List.map (build w).group xs)) hsame.symm)

/-- What stands on the stack from a node on is ready to be closed: it leads to the node and the
node to it, and to nothing that stands below. -/
structure Ready (w : Workspace) (s : Grouping) (below : List ProjectId) (id : ProjectId)
    (above : List ProjectId) : Prop where
  stack : s.stack = below ++ id :: above
  members : ∀ x ∈ id :: above, Mutual w id x
  met : ∀ x ∈ id :: above, ∀ c, Refers w x c → c ∈ s.entered ∧ c ∉ below

variable {below above : List ProjectId}

theorem Ready.mem_stack (h : s.Ready w below id above) : id ∈ s.stack := by
  simp [h.stack]

theorem Ready.not_mem_below (h : s.Ready w below id above) (hs : s.Sound w) : id ∉ below := by
  intro hmem
  have hnodup := hs.nodup
  rw [h.stack, List.nodup_append] at hnodup
  exact hnodup.right.right id hmem id List.mem_cons_self rfl

theorem Ready.closed (h : s.Ready w below id above) (hs : s.Sound w) (x : ProjectId)
    (hx : x ∈ s.entered ∧ x ∉ below) (c : ProjectId) (hc : Refers w x c) :
    c ∈ s.entered ∧ c ∉ below := by
  by_cases hin : x ∈ id :: above
  · exact h.met x hin c hc
  · have hoff : x ∉ s.stack := by
      rw [h.stack, List.mem_append]
      exact not_or.mpr ⟨hx.right, hin⟩
    rcases hs.closed x ⟨hx.left, hoff⟩ c hc with ⟨hentered, hnot⟩
    rw [h.stack, List.mem_append] at hnot
    exact ⟨hentered, fun hmem => hnot (.inl hmem)⟩

theorem Ready.mem_iff (h : s.Ready w below id above) (hs : s.Sound w) :
    c ∈ id :: above ↔ Mutual w id c := by
  constructor
  · exact h.members c
  · intro hmutual
    have hid := hs.stack_entered id h.mem_stack
    have hc := holds_of_reaches (h.closed hs) ⟨hid, h.not_mem_below hs⟩ hmutual.left
    by_contra hnot
    -- off the stack, the other node does not lead back
    have hoff : c ∉ s.stack := by
      rw [h.stack, List.mem_append]
      exact not_or.mpr ⟨hc.right, hnot⟩
    exact (holds_of_reaches hs.closed ⟨hc.left, hoff⟩ hmutual.right).right h.mem_stack

theorem Ready.inOrder_eq (h : s.Ready w below id above) (hs : s.Sound w) :
    (build w).inOrder (id :: above) = (build w).group id := by
  have hnodup : (id :: above).Nodup := by
    have hnodup := hs.nodup
    rw [h.stack, List.nodup_append] at hnodup
    exact hnodup.right.left
  have hid := hs.entered_ids id (hs.stack_entered id h.mem_stack)
  have hids := nodup_ids_build w
  have hsub := group_sublist (build w) id
  apply inOrder_of_perm hids hsub
  apply (List.perm_ext_iff_of_nodup hnodup (hids.sublist hsub)).mpr
  intro c
  rw [h.mem_iff hs, mem_group, and_iff_right hid]

/-- Of the nodes that were left before, those of the group come off the stack. -/
theorem Ready.filter_left (h : s.Ready w below id above) (hs : s.Sound w) :
    ((s.left.filter fun x => x ∉ below).map (build w).group).filter
        (fun members => !members == (build w).group id) =
      (s.left.filter fun x => x ∉ s.stack).map (build w).group := by
  have hid := hs.entered_ids id (hs.stack_entered id h.mem_stack)
  rw [List.filter_map, List.filter_filter]
  apply congrArg (List.map (build w).group)
  apply List.filter_congr
  intro x hx
  have hmem := h.mem_iff hs (c := x)
  rw [← group_eq_iff hid (hs.entered_ids x (hs.left_entered x hx))] at hmem
  rw [Bool.eq_iff_iff]
  simp [h.stack, hmem, and_comm]

theorem Ready.stack_close (h : s.Ready w below id above) :
    ((s.leave id).close below.length).stack = below := by
  change s.stack.take below.length = below
  rw [h.stack, List.take_left]

theorem Ready.groups_close (h : s.Ready w below id above) :
    ((s.leave id).close below.length).groups = s.groups ++ [id :: above] := by
  change s.groups ++ [s.stack.drop below.length] = s.groups ++ [id :: above]
  rw [h.stack, List.drop_left]

theorem Sound.close (hs : s.Sound w) (h : s.Ready w below id above) :
    ((s.leave id).close below.length).Sound w where
  entered_ids := hs.entered_ids
  left_entered := (hs.leave h.mem_stack).left_entered
  stack_entered x hx := hs.stack_entered x (List.mem_of_mem_take hx)
  nodup := hs.nodup.sublist (List.take_sublist _ _)
  closed := by
    rw [h.stack_close]
    exact h.closed hs
  groups := by
    change _ = lastOnes (((s.left ++ [id]).filter _).map _)
    have hkept : [id].filter (fun x => x ∉ below) = [id] :=
      List.filter_cons_of_pos (by simpa using h.not_mem_below hs)
    rw [h.stack_close, h.groups_close, List.map_append, List.map_singleton, h.inOrder_eq hs,
      hs.groups, List.filter_append, List.map_append, hkept, List.map_singleton, lastOnes_concat,
      h.filter_left hs]

/-!
# Visits

While a node is visited, what it leads to is put on the stack above it. All of that leads back
to the node, as does all that stands below.
-/

/-- The node has been entered, and the number is no higher than its place on the stack. -/
structure Met (s : Grouping) (r : Grouping × Nat) (c : ProjectId) : Prop where
  entered : c ∈ r.1.entered
  le : r.2 ≤ s.stack.idxOf c

/-- What has been put on the stack for a node. -/
structure Spans (w : Workspace) (s : Grouping) (id : ProjectId) (r : Grouping × Nat)
    (above : List ProjectId) : Prop where
  sound : r.1.Sound w
  entered : ∀ x ∈ s.entered, x ∈ r.1.entered
  stack : r.1.stack = s.stack ++ above
  members : ∀ x ∈ above, Mutual w id x
  le : r.2 ≤ s.stack.length
  reached : ∀ z, s.stack[r.2]? = some z → Relation.ReflTransGen (Refers w) id z

/-- What a visit of a node comes to. -/
structure Visits (w : Workspace) (s : Grouping) (id : ProjectId) (r : Grouping × Nat)
    (above : List ProjectId) : Prop extends s.Spans w id r above where
  self : s.Met r id
  met : ∀ x ∈ above, ∀ c, Refers w x c → s.Met r c
  lower : above ≠ [] → r.2 < s.stack.length

/-- What a visit of a node has come to when it has tried some references. -/
structure Explores (w : Workspace) (s : Grouping) (id : ProjectId) (tried : List ProjectId)
    (r : Grouping × Nat) (above : List ProjectId) : Prop extends
    s.Spans w id r (id :: above) where
  tried_met : ∀ c ∈ tried, s.Met r c
  met : ∀ x ∈ above, ∀ c, Refers w x c → s.Met r c

variable {r r' : Grouping × Nat} {tried above' : List ProjectId}

theorem visits_of_entered (hs : s.Sound w) (hin : id ∈ s.entered) :
    s.Visits w id (s, s.stack.idxOf id) [] where
  sound := hs
  entered _ hx := hx
  stack := (List.append_nil _).symm
  members _ hx := absurd hx List.not_mem_nil
  le := List.idxOf_le_length
  reached z hz := by
    rcases List.getElem?_eq_some_iff.mp hz with ⟨hlt, heq⟩
    rw [List.getElem_idxOf] at heq
    exact heq ▸ .refl
  self := ⟨hin, Nat.le_refl _⟩
  met _ hx := absurd hx List.not_mem_nil
  lower h := absurd rfl h

theorem explores_enter (hs : s.Sound w) (hid : id ∈ validIds w) (hnew : id ∉ s.entered) :
    s.Explores w id [] (s.enter id, s.stack.length) [] where
  sound := hs.enter hid hnew
  entered _ hx := List.mem_cons_of_mem id hx
  stack := rfl
  members _ hx := List.mem_singleton.mp hx ▸ .refl _
  le := Nat.le_refl _
  reached z hz := by
    rw [List.getElem?_eq_none (Nat.le_refl _)] at hz
    cases hz
  tried_met _ hc := absurd hc List.not_mem_nil
  met _ hx := absurd hx List.not_mem_nil

theorem Explores.reaches (h : s.Explores w id tried r above)
    (hopen : ∀ x ∈ s.stack, Relation.ReflTransGen (Refers w) x id) :
    ∀ x ∈ r.1.stack, Relation.ReflTransGen (Refers w) x id := by
  intro x hx
  rw [h.stack] at hx
  rcases List.mem_append.mp hx with hx | hx
  · exact hopen x hx
  · exact (h.members x hx).right

theorem Met.later (h : s.Met r c) (hentered : ∀ x ∈ r.1.entered, x ∈ r'.1.entered) :
    s.Met (r'.1, min r.2 r'.2) c :=
  ⟨hentered c h.entered, (Nat.min_le_left _ _).trans h.le⟩

/-- What stands higher on the stack makes no difference. -/
theorem Met.restrict (h : r.1.Met r' c) (hstack : r.1.stack = s.stack ++ above)
    (hle : r.2 ≤ s.stack.length) : s.Met (r'.1, min r.2 r'.2) c := by
  refine ⟨h.entered, ?_⟩
  by_cases hc : c ∈ s.stack
  · have hplace := h.le
    rw [hstack, List.idxOf_append_of_mem hc] at hplace
    exact (Nat.min_le_right _ _).trans hplace
  · rw [List.idxOf_eq_length hc]
    exact (Nat.min_le_left _ _).trans hle

/-- One more reference is tried. -/
theorem Explores.probe (h : s.Explores w id tried r above)
    (hopen : ∀ x ∈ s.stack, Relation.ReflTransGen (Refers w) x id) (hc : Refers w id c)
    (hv : r.1.Visits w c r' above') :
    s.Explores w id (tried ++ [c]) (r'.1, min r.2 r'.2) (above ++ above') where
  sound := hv.sound
  entered x hx := hv.entered x (h.entered x hx)
  stack := by rw [hv.stack, h.stack, List.append_assoc, List.cons_append]
  members x hx := by
    rw [← List.cons_append] at hx
    rcases List.mem_append.mp hx with hx | hx
    · exact h.members x hx
    · -- what was put on the stack leads to something below, and so back to the node
      have hlt := hv.lower (List.ne_nil_of_mem hx)
      have hz := hv.reached _ (List.getElem?_eq_getElem hlt)
      have hback := h.reaches hopen _ (List.getElem_mem hlt)
      have hmutual := hv.members x hx
      exact ⟨.head hc hmutual.left, (hmutual.right.trans hz).trans hback⟩
  le := (Nat.min_le_left _ _).trans h.le
  reached z hz := by
    rcases Nat.le_total r.2 r'.2 with hle | hle
    · rw [Nat.min_eq_left hle] at hz
      exact h.reached z hz
    · rw [Nat.min_eq_right hle] at hz
      have hlt : r'.2 < s.stack.length := (List.getElem?_eq_some_iff.mp hz).choose
      rw [← List.getElem?_append_left hlt, ← h.stack] at hz
      exact .head hc (hv.reached z hz)
  tried_met := by
    intro x hx
    rcases List.mem_append.mp hx with hx | hx
    · exact (h.tried_met x hx).later hv.entered
    · rw [List.mem_singleton.mp hx]
      exact hv.self.restrict h.stack h.le
  met := by
    intro x hx d hd
    rcases List.mem_append.mp hx with hx | hx
    · exact (h.met x hx d hd).later hv.entered
    · exact (hv.met x hx d hd).restrict h.stack h.le

theorem Explores.mem_stack (h : s.Explores w id tried r above) : id ∈ r.1.stack := by
  simp [h.stack]

/-- All references of the nodes that stand above have been tried. -/
theorem Explores.all_met (h : s.Explores w id tried r above)
    (htried : ∀ c, Refers w id c → c ∈ tried) :
    ∀ x ∈ id :: above, ∀ c, Refers w x c → s.Met r c := by
  intro x hx c hc
  rcases List.mem_cons.mp hx with rfl | hx
  · exact h.tried_met c (htried c hc)
  · exact h.met x hx c hc

theorem Explores.visits_leave (h : s.Explores w id tried r above) (hnew : id ∉ s.stack)
    (htried : ∀ c, Refers w id c → c ∈ tried) (hlow : r.2 ≠ s.stack.length) :
    s.Visits w id (r.1.leave id, r.2) (id :: above) where
  sound := h.sound.leave h.mem_stack
  entered := h.entered
  stack := h.stack
  members := h.members
  le := h.le
  reached := h.reached
  self := by
    refine ⟨h.sound.stack_entered id h.mem_stack, ?_⟩
    rw [List.idxOf_eq_length hnew]
    exact h.le
  met x hx c hc := by
    have hmet := h.all_met htried x hx c hc
    exact ⟨hmet.entered, hmet.le⟩
  lower _ := Nat.lt_of_le_of_ne h.le hlow

/-- A node that leads to nothing below it is ready. -/
theorem Explores.ready (h : s.Explores w id tried r above)
    (htried : ∀ c, Refers w id c → c ∈ tried) (hlow : r.2 = s.stack.length) :
    r.1.Ready w s.stack id above where
  stack := h.stack
  members := h.members
  met x hx c hc := by
    have hmet := h.all_met htried x hx c hc
    constructor
    · exact hmet.entered
    · intro hmem
      have hplace := List.idxOf_lt_length_of_mem hmem
      have hle := hmet.le
      omega

theorem Explores.visits_close (h : s.Explores w id tried r above) (hnew : id ∉ s.stack)
    (htried : ∀ c, Refers w id c → c ∈ tried) (hlow : r.2 = s.stack.length) :
    s.Visits w id ((r.1.leave id).close s.stack.length, s.stack.length) [] where
  sound := h.sound.close (h.ready htried hlow)
  entered := h.entered
  stack := (h.ready htried hlow).stack_close.trans (List.append_nil _).symm
  members _ hx := absurd hx List.not_mem_nil
  le := Nat.le_refl _
  reached z hz := by
    rw [List.getElem?_eq_none (Nat.le_refl _)] at hz
    cases hz
  self := ⟨h.sound.stack_entered id h.mem_stack, (List.idxOf_eq_length hnew).ge⟩
  met _ hx := absurd hx List.not_mem_nil
  lower hne := absurd rfl hne

/-!
# Whole walks
-/

/-- Visiting a node with this bound on the depth is understood. -/
def Understood (w : Workspace) (visit : Grouping → ProjectId → Grouping × Nat) (depth : Nat) :
    Prop :=
  ∀ (s : Grouping) (id : ProjectId), s.Sound w → id ∈ validIds w →
    unseen (validIds w) s.entered ≤ depth →
    (∀ x ∈ s.stack, Relation.ReflTransGen (Refers w) x id) →
    ∃ above, s.Visits w id (visit s id) above

variable {depth : Nat}

theorem Explores.foldl {visit : Grouping → ProjectId → Grouping × Nat}
    (hvisit : Understood w visit depth)
    (hopen : ∀ x ∈ s.stack, Relation.ReflTransGen (Refers w) x id) {xs : List ProjectId}
    (hxs : ∀ c ∈ xs, Refers w id c) (hdepth : unseen (validIds w) r.1.entered ≤ depth)
    (h : s.Explores w id tried r above) :
    ∃ above', s.Explores w id (tried ++ xs) (xs.foldl (Grouping.probe visit) r) above' := by
  induction xs generalizing tried r above with
  | nil =>
      rw [List.append_nil]
      exact ⟨above, h⟩
  | cons c xs ih =>
      obtain ⟨hc, hxs⟩ := List.forall_mem_cons.mp hxs
      have hleads := fun x hx => (h.reaches hopen x hx).tail hc
      obtain ⟨above', hv⟩ := hvisit r.1 c h.sound hc.right.left hdepth hleads
      have hrest := ih (r := Grouping.probe visit r c) hxs
        ((unseen_le_of_subset hv.entered).trans hdepth) (h.probe hopen hc hv)
      rwa [List.append_assoc] at hrest

theorem understood_visit (hnext : ∀ a c, c ∈ next a ↔ Refers w a c) (depth : Nat) :
    Understood w (visit next depth) depth := by
  induction depth with
  | zero =>
      intro s id hs hid hdepth _
      have hin : id ∈ s.entered := by
        by_contra hnew
        have hlt := unseen_cons_lt hid hnew
        omega
      exact ⟨[], visits_of_entered hs hin⟩
  | succ depth ih =>
      intro s id hs hid hdepth hopen
      rw [visit]
      by_cases hin : id ∈ s.entered
      · rw [if_pos hin]
        exact ⟨[], visits_of_entered hs hin⟩
      · rw [if_neg hin]
        have hlt := unseen_cons_lt hid hin
        have hnew : id ∉ s.stack := fun hmem => hin (hs.stack_entered id hmem)
        obtain ⟨above, h⟩ := Explores.foldl ih hopen (fun c => (hnext id c).mp)
          (by change unseen (validIds w) (id :: s.entered) ≤ depth; omega)
          (explores_enter hs hid hin)
        have htried : ∀ c, Refers w id c → c ∈ [] ++ next id := fun c => (hnext id c).mpr
        unfold finish
        split
        next hlow => exact ⟨[], h.visits_close hnew htried hlow⟩
        next hlow => exact ⟨id :: above, h.visits_leave hnew htried hlow⟩

/-- Between two visits from outside the stack is empty. -/
theorem sound_foldl (hnext : ∀ a c, c ∈ next a ↔ Refers w a c) {xs : List ProjectId}
    (hxs : ∀ x ∈ xs, x ∈ validIds w) (hs : s.Sound w) (hstack : s.stack = [])
    (hdepth : unseen (validIds w) s.entered ≤ depth) :
    (xs.foldl (fun s id => (visit next depth s id).1) s).Sound w ∧
      (xs.foldl (fun s id => (visit next depth s id).1) s).stack = [] := by
  induction xs generalizing s with
  | nil => exact ⟨hs, hstack⟩
  | cons x xs ih =>
      obtain ⟨hx, hxs⟩ := List.forall_mem_cons.mp hxs
      have hopen : ∀ y ∈ s.stack, Relation.ReflTransGen (Refers w) y x := by
        intro y hy
        rw [hstack] at hy
        cases hy
      obtain ⟨above, hv⟩ := understood_visit hnext depth s x hs hx hdepth hopen
      have habove : above = [] := by
        by_contra hne
        have hlt := hv.lower hne
        rw [hstack] at hlt
        exact Nat.not_lt_zero _ hlt
      apply ih hxs hv.sound
      · rw [hv.stack, hstack, habove, List.append_nil]
      · exact (unseen_le_of_subset hv.entered).trans hdepth

end Grouping

/-- The groups are found in the order in which the walk leaves their last members. -/
theorem components_build (hnext : ∀ a c, c ∈ next a ↔ Refers w a c) :
    ((build w).components next).map (build w).inOrder =
      lastOnes (((build w).walk next).map (build w).group) := by
  have hdepth : unseen (validIds w) [] ≤ (build w).nodes.length := by
    rw [← length_ids, ids_build]
    simpa [unseen] using (validIds w).toFinset_card_le
  obtain ⟨hsound, hstack⟩ := Grouping.sound_foldl hnext
    (fun x (hx : x ∈ (build w).ids) => ids_build w ▸ hx) (Grouping.sound_start w) rfl hdepth
  have hwalk : ((build w).ids.foldl
      (fun s id => (Grouping.visit next (build w).nodes.length s id).1) .start).toWalk =
        (build w).ids.foldl (walkFrom next (build w).nodes.length) ⟨[], []⟩ :=
    (List.foldl_hom Grouping.toWalk fun s id => (Grouping.toWalk_visit _ s id).symm).symm
  have hgroups := hsound.groups
  simp only [hstack, List.not_mem_nil, not_false_eq_true, decide_true, List.filter_true] at hgroups
  rw [components, hgroups, walk, ← hwalk]

end Graph
end Ripple
