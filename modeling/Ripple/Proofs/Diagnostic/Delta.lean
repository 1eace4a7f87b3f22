import Mathlib.Data.List.Count
import Ripple.Diagnostic.Delta

/-!
# Differences lose nothing

Diagnostics are matched with keys one to one. How many of them find a partner depends on
how often each key is there and on nothing else, so each list that a difference is made of
has as many diagnostics of a key as there should be.
-/

namespace Ripple

/-!
# Merged lists
-/

/-- The last list is made of the elements of the other two, those of each in their order. -/
inductive Merges {α : Type} : List α → List α → List α → Prop where
  | nil : Merges [] [] []
  | left {xs ys zs : List α} (x : α) (h : Merges xs ys zs) : Merges (x :: xs) ys (x :: zs)
  | right {xs ys zs : List α} (y : α) (h : Merges xs ys zs) : Merges xs (y :: ys) (y :: zs)

namespace Merges

variable {α : Type} {xs ys zs : List α}

theorem sublist_right (h : Merges xs ys zs) : ys.Sublist zs := by
  induction h with
  | nil => exact .slnil
  | left x _ ih => exact ih.cons x
  | right y _ ih => exact ih.cons_cons y

theorem mem_iff (h : Merges xs ys zs) {z : α} : z ∈ zs ↔ z ∈ xs ∨ z ∈ ys := by
  induction h with
  | nil => simp
  | left x _ ih => rw [List.mem_cons, List.mem_cons, ih, or_assoc]
  | right y _ ih => rw [List.mem_cons, List.mem_cons, ih, or_left_comm]

theorem countP_eq (h : Merges xs ys zs) (p : α → Bool) :
    zs.countP p = xs.countP p + ys.countP p := by
  induction h with
  | nil => rfl
  | left x _ ih =>
      rw [List.countP_cons, List.countP_cons, ih]
      omega
  | right y _ ih =>
      rw [List.countP_cons, List.countP_cons, ih]
      omega

end Merges

/-!
# Matching
-/

namespace Delta

/-- How many of the diagnostics have the key. -/
def copies (k : Diagnostic.Key) (ds : List Diagnostic) : Nat :=
  ds.countP fun d => d.key = k

theorem copies_cons (k : Diagnostic.Key) (d : Diagnostic) (ds : List Diagnostic) :
    copies k (d :: ds) = copies k ds + if d.key = k then 1 else 0 := by
  simp [copies, List.countP_cons]

theorem count_map_key (k : Diagnostic.Key) (ds : List Diagnostic) :
    (ds.map Diagnostic.key).count k = copies k ds := by
  rw [List.count_eq_countP, List.countP_map]
  rfl

theorem eq_nil_iff_copies {ds : List Diagnostic} : ds = [] ↔ ∀ k, copies k ds = 0 := by
  constructor
  · rintro rfl k
    rfl
  · intro h
    cases ds with
    | nil => rfl
    | cons d ds =>
        have hd := h d.key
        rw [copies_cons, if_pos rfl] at hd
        omega

/-- The counters after a partner with the key has been taken. -/
def take (left : Diagnostic.Key → Nat) (k : Diagnostic.Key) : Diagnostic.Key → Nat :=
  fun other => if other = k then left other - 1 else left other

/-- The same as `pair`, with a counter for each key instead of a list of keys. -/
def pairCounted : (Diagnostic.Key → Nat) → List Diagnostic → List Diagnostic × List Diagnostic
  | _, [] => ([], [])
  | left, d :: ds =>
      if 0 < left d.key then
        let rest := pairCounted (take left d.key) ds
        (d :: rest.1, rest.2)
      else
        let rest := pairCounted left ds
        (rest.1, d :: rest.2)

theorem count_erase_eq_take (keys : List Diagnostic.Key) (k : Diagnostic.Key) :
    (fun other => (keys.erase k).count other) = take (fun other => keys.count other) k := by
  funext other
  unfold take
  split
  · rename_i hother
    rw [hother, List.count_erase_self]
  · rename_i hother
    exact List.count_erase_of_ne hother

theorem pair_eq_pairCounted (keys : List Diagnostic.Key) (ds : List Diagnostic) :
    pair keys ds = pairCounted (fun k => keys.count k) ds := by
  induction ds generalizing keys with
  | nil => rfl
  | cons d ds ih =>
      unfold pair pairCounted
      simp only [List.count_pos_iff, ih, count_erase_eq_take]

theorem merges_pairCounted (left : Diagnostic.Key → Nat) (ds : List Diagnostic) :
    Merges (pairCounted left ds).1 (pairCounted left ds).2 ds := by
  induction ds generalizing left with
  | nil => exact .nil
  | cons d ds ih =>
      unfold pairCounted
      split
      · exact .left d (ih _)
      · exact .right d (ih _)

/-- As many diagnostics of a key find a partner as there are, if there are enough partners. -/
theorem copies_pairCounted (left : Diagnostic.Key → Nat) (ds : List Diagnostic)
    (k : Diagnostic.Key) : copies k (pairCounted left ds).1 = min (left k) (copies k ds) := by
  induction ds generalizing left with
  | nil => exact (Nat.min_zero _).symm
  | cons d ds ih =>
      unfold pairCounted
      split
      · rename_i hleft
        simp only [copies_cons, ih, take]
        by_cases hkey : d.key = k
        · subst hkey
          simp only [if_true]
          omega
        · rw [if_neg hkey, if_neg (Ne.symm hkey)]
          rfl
      · rename_i hleft
        simp only [copies_cons, ih]
        split
        · rename_i hkey
          subst hkey
          omega
        · rfl

section

variable (before after : List Diagnostic)

theorem merges_pair : Merges (pair (before.map Diagnostic.key) after).1
    (pair (before.map Diagnostic.key) after).2 after := by
  rw [pair_eq_pairCounted]
  exact merges_pairCounted _ after

theorem copies_matched (k : Diagnostic.Key) :
    copies k (pair (before.map Diagnostic.key) after).1 =
      min (copies k before) (copies k after) := by
  rw [pair_eq_pairCounted, copies_pairCounted, count_map_key]

theorem copies_unmatched (k : Diagnostic.Key) :
    copies k (pair (before.map Diagnostic.key) after).2 =
      copies k after - min (copies k before) (copies k after) := by
  have hall := (merges_pair before after).countP_eq fun d => d.key = k
  have hmatched := copies_matched before after k
  unfold copies at hmatched ⊢
  omega

end

/-!
# The difference
-/

theorem key_eq_iff {d d' : Diagnostic} : d.key = d'.key ↔
    d.rule = d'.rule ∧ d.file.same d'.file ∧ d.line = d'.line ∧ d.column = d'.column ∧
      d.message = d'.message := by
  simp [Diagnostic.key, Path.same]

theorem isEmpty_iff_copies {delta : Delta} : delta.isEmpty ↔
    ∀ k, copies k delta.resolved = 0 ∧ copies k delta.introduced = 0 := by
  rw [isEmpty, Bool.and_eq_true, List.isEmpty_iff, List.isEmpty_iff, eq_nil_iff_copies,
    eq_nil_iff_copies]
  exact forall_and.symm

/-- Diagnostics are taken apart by how often each key is there before and after. What is
there after is either unchanged or introduced, and the way back resolves what the way there
has introduced. -/
theorem compute_partitions (before after : List Diagnostic) :
    Merges (compute before after).unchanged (compute before after).introduced after ∧
    (compute before after).resolved.Sublist before ∧
    (∀ k, copies k (compute before after).unchanged = min (copies k before) (copies k after) ∧
      copies k (compute before after).introduced =
        copies k after - min (copies k before) (copies k after) ∧
      copies k (compute before after).resolved =
        copies k before - min (copies k before) (copies k after)) ∧
    (compute after before).introduced = (compute before after).resolved ∧
    (compute after before).resolved = (compute before after).introduced ∧
    ((compute before after).isEmpty ↔ ∀ k, copies k before = copies k after) ∧
    ∀ d d' : Diagnostic, d.key = d'.key ↔ d.rule = d'.rule ∧ d.file.same d'.file ∧
      d.line = d'.line ∧ d.column = d'.column ∧ d.message = d'.message := by
  have hintroduced : ∀ k, copies k (compute before after).introduced =
      copies k after - min (copies k before) (copies k after) := copies_unmatched before after
  have hresolved : ∀ k, copies k (compute before after).resolved =
      copies k before - min (copies k before) (copies k after) := by
    intro k
    rw [Nat.min_comm]
    exact copies_unmatched after before k
  refine ⟨merges_pair before after, (merges_pair after before).sublist_right, fun k => ?_, rfl, rfl,
    ?_, fun _ _ => key_eq_iff⟩
  · exact ⟨copies_matched before after k, hintroduced k, hresolved k⟩
  · rw [isEmpty_iff_copies]
    refine forall_congr' fun k => ?_
    rw [hintroduced, hresolved]
    omega

/-!
# Errors
-/

theorem exists_partner {before after : List Diagnostic} {d : Diagnostic}
    (h : d ∈ (compute before after).unchanged) : ∃ d' ∈ before, d'.key = d.key := by
  have hpos : 0 < copies d.key (compute before after).unchanged :=
    List.countP_pos_iff.mpr ⟨d, h, decide_eq_true rfl⟩
  have hcopies : copies d.key (compute before after).unchanged =
      min (copies d.key before) (copies d.key after) := copies_matched before after d.key
  have hbefore : 0 < copies d.key before := by omega
  rcases List.countP_pos_iff.mp hbefore with ⟨d', hd', hkey⟩
  exact ⟨d', hd', of_decide_eq_true hkey⟩

/-- If no two diagnostics with one key differ in severity, then an error that counts as
unchanged was one before. -/
theorem isError_of_unchanged {before after : List Diagnostic}
    (hsteady : ∀ d ∈ before, ∀ d' ∈ after, d.key = d'.key → d.severity = d'.severity)
    {d : Diagnostic} (h : d ∈ (compute before after).unchanged) (herror : d.isError) :
    ∀ d' ∈ before, d'.key = d.key → d'.isError := by
  intro d' hd' hkey
  have hd : d ∈ after := (merges_pair before after).mem_iff.mpr (.inl h)
  rw [Diagnostic.isError, hsteady d' hd' d hd hkey]
  exact herror

theorem introducesErrors_of_any {before after : List Diagnostic}
    (hsteady : ∀ d ∈ before, ∀ d' ∈ after, d.key = d'.key → d.severity = d'.severity)
    (hclean : ∀ d ∈ before, ¬d.isError) (hafter : after.any Diagnostic.isError) :
    (compute before after).introducesErrors := by
  rcases List.any_eq_true.mp hafter with ⟨d, hd, herror⟩
  rcases (merges_pair before after).mem_iff.mp hd with hunchanged | hintroduced
  · rcases exists_partner hunchanged with ⟨d', hd', hkey⟩
    exact (hclean d' hd' (isError_of_unchanged hsteady hunchanged herror d' hd' hkey)).elim
  · exact List.any_eq_true.mpr ⟨d, hintroduced, herror⟩

end Delta
end Ripple
