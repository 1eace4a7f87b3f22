import Mathlib.Data.List.Induction

/-!
# What is repeated in a list

Members of a list are told apart by a key. A member is the first with its key, or it
repeats the key of an earlier one: which of the two is decided by what stands before it.
-/

namespace Ripple

variable {α κ : Type} [DecidableEq κ]

/-- The members that are chosen in view of those before them, in order. -/
def chosen (p : List α → α → Bool) (xs : List α) : List α :=
  (xs.zipIdx.filter fun place => p (xs.take place.2) place.1).map Prod.fst

/-- The members with keys that no earlier member has. -/
def firstsBy (key : α → κ) (xs : List α) : List α :=
  chosen (fun before x => key x ∉ before.map key) xs

/-- The members with keys that an earlier member has. -/
def repeatsBy (key : α → κ) (xs : List α) : List α :=
  chosen (fun before x => key x ∈ before.map key) xs

/-!
# A list with one more member
-/

theorem chosen_concat (p : List α → α → Bool) (xs : List α) (x : α) :
    chosen p (xs ++ [x]) = chosen p xs ++ if p xs x then [x] else [] := by
  unfold chosen
  rw [List.zipIdx_append, List.filter_append, List.map_append]
  congr 1
  · -- The places that were there before have the same members before them.
    congr 1
    apply List.filter_congr
    intro place hplace
    have hlt : place.2 < xs.length := List.snd_lt_of_mem_zipIdx hplace
    rw [List.take_append_of_le_length (Nat.le_of_lt hlt)]
  · have hbefore : (xs ++ [x]).take (0 + xs.length) = xs := by simp
    rw [List.zipIdx_singleton, List.filter_cons, hbefore]
    cases p xs x <;> rfl

theorem firstsBy_concat (key : α → κ) (xs : List α) (x : α) :
    firstsBy key (xs ++ [x]) =
      firstsBy key xs ++ if key x ∈ xs.map key then [] else [x] := by
  unfold firstsBy
  rw [chosen_concat]
  by_cases hx : key x ∈ xs.map key
  · rw [if_pos hx, if_neg (by simpa using hx)]
  · rw [if_neg hx, if_pos (by simpa using hx)]

theorem repeatsBy_concat (key : α → κ) (xs : List α) (x : α) :
    repeatsBy key (xs ++ [x]) =
      repeatsBy key xs ++ if key x ∈ xs.map key then [x] else [] := by
  unfold repeatsBy
  rw [chosen_concat]
  congr 1
  exact if_congr (decide_eq_true_iff) rfl rfl

/-!
# Keys
-/

theorem eraseDups_concat (ks : List κ) (k : κ) :
    (ks ++ [k]).eraseDups = ks.eraseDups ++ if k ∈ ks then [] else [k] := by
  have hone : [k].eraseDups = [k] := rfl
  rw [List.eraseDups_append]
  by_cases hk : k ∈ ks <;> simp [List.removeAll, hk, hone]

/-- Members keep their order. -/
theorem eraseDups_sublist (ks : List κ) : ks.eraseDups.Sublist ks := by
  induction ks using List.reverseRecOn with
  | nil => exact List.nil_sublist _
  | append_singleton ks k ih =>
      rw [eraseDups_concat]
      split
      · rw [List.append_nil]
        exact ih.trans (List.sublist_append_left ks [k])
      · exact ih.append_right [k]

/-- Where nothing is repeated there is nothing to leave out. -/
theorem eraseDups_of_nodup {ks : List κ} (h : ks.Nodup) : ks.eraseDups = ks := by
  induction ks with
  | nil => rfl
  | cons k ks ih =>
      rcases List.nodup_cons.mp h with ⟨hk, hnodup⟩
      have hkept : (ks.filter fun other => !other == k) = ks := by
        refine List.filter_eq_self.mpr fun other hother => ?_
        have hne : other ≠ k := fun heq => hk (heq ▸ hother)
        simpa using hne
      rw [List.eraseDups_cons, hkept, ih hnodup]

theorem filter_eraseDups (q : κ → Bool) (ks : List κ) :
    ks.eraseDups.filter q = (ks.filter q).eraseDups := by
  induction ks using List.reverseRecOn with
  | nil => rfl
  | append_singleton ks k ih =>
      rw [eraseDups_concat, List.filter_append, List.filter_append, ih]
      cases hk : q k with
      | false =>
          have hnone : (if k ∈ ks then [] else [k]).filter q = [] := by
            split <;> simp [hk]
          rw [hnone, List.filter_cons_of_neg (by simp [hk]), List.filter_nil, List.append_nil,
            List.append_nil]
      | true =>
          have hmem : k ∈ ks.filter q ↔ k ∈ ks := by simp [hk]
          rw [List.filter_cons_of_pos hk, List.filter_nil, eraseDups_concat, if_congr hmem rfl rfl]
          congr 1
          split <;> simp [hk]

/-- Every key has a first member, and only one. -/
theorem map_firstsBy (key : α → κ) (xs : List α) :
    (firstsBy key xs).map key = (xs.map key).eraseDups := by
  induction xs using List.reverseRecOn with
  | nil => rfl
  | append_singleton xs x ih =>
      rw [firstsBy_concat, List.map_append, List.map_append, List.map_singleton, eraseDups_concat,
        ih]
      by_cases hx : key x ∈ xs.map key
      · rw [if_pos hx, if_pos hx, List.map_nil]
      · rw [if_neg hx, if_neg hx, List.map_singleton]

/-- The first member is the one that a look-up finds. -/
theorem find?_firstsBy (key : α → κ) (xs : List α) (k : κ) :
    (firstsBy key xs).find? (fun x => key x = k) = xs.find? fun x => key x = k := by
  induction xs using List.reverseRecOn with
  | nil => rfl
  | append_singleton xs x ih =>
      rw [firstsBy_concat, List.find?_append, List.find?_append, ih]
      by_cases hx : key x ∈ xs.map key
      · rw [if_pos hx, List.find?_nil, Option.or_none]
        by_cases hk : key x = k
        · -- An earlier member has the key, so the last one is not reached.
          obtain ⟨y, hy, hyx⟩ := List.mem_map.mp hx
          have hsome : (xs.find? fun y => key y = k).isSome :=
            List.find?_isSome.mpr ⟨y, hy, decide_eq_true (hyx.trans hk)⟩
          rw [Option.or_of_isSome hsome]
        · rw [List.find?_singleton, if_neg (by simpa using hk), Option.or_none]
      · rw [if_neg hx]

/-- A member is a first one or a repetition. -/
theorem length_firstsBy_add_length_repeatsBy (key : α → κ) (xs : List α) :
    (firstsBy key xs).length + (repeatsBy key xs).length = xs.length := by
  induction xs using List.reverseRecOn with
  | nil => rfl
  | append_singleton xs x ih =>
      rw [firstsBy_concat, repeatsBy_concat, List.length_append, List.length_append,
        List.length_append, ← ih]
      by_cases hx : key x ∈ xs.map key
      · rw [if_pos hx, if_pos hx, List.length_nil, List.length_singleton]
        omega
      · rw [if_neg hx, if_neg hx, List.length_nil, List.length_singleton]
        omega

end Ripple
