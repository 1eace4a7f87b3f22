import Ripple.Path.Map

/-!
# Maps keyed by paths keep their order

Paths are compared by their components. Rows that stand in strictly increasing
order have no two spellings of one place, and every change of a map keeps that
order.
-/

namespace Ripple

/-!
# The order of components
-/

namespace Component

instance : Std.OrientedOrd Component where
  eq_swap {a c} := by
    cases a <;> cases c <;> try rfl
    case name.name s t =>
      change (compare s t).then .eq = ((compare t s).then .eq).swap
      rw [Std.OrientedOrd.eq_swap (a := s) (b := t)]
      cases compare t s <;> rfl

instance : Std.TransOrd Component where
  isLE_trans {a c d} hac hcd := by
    cases a <;> cases c <;> cases d <;> first | rfl | contradiction | skip
    case name.name.name s t u =>
      have hthen (s t : String) : compare (name s) (name t) = compare s t := by
        change (compare s t).then .eq = compare s t
        cases compare s t <;> rfl
      rw [hthen] at hac hcd ⊢
      exact Std.TransOrd.isLE_trans hac hcd

instance : Std.LawfulEqOrd Component where
  eq_of_compare {a c} h := by
    cases a <;> cases c <;> first | rfl | contradiction | skip
    case name.name s t =>
      change (compare s t).then .eq = .eq at h
      have hst : compare s t = .eq := by
        cases hcompare : compare s t <;> rw [hcompare] at h <;> first | rfl | contradiction
      rw [Std.LawfulEqOrd.eq_of_compare hst]

theorem compareKeys_eq (as cs : List Component) : compareKeys as cs = compare as cs := by
  induction as generalizing cs with
  | nil => cases cs <;> rfl
  | cons a as ih =>
      cases cs with
      | nil => rfl
      | cons c cs =>
          rw [compareKeys, ih]
          exact (List.compareLex_cons_cons ..).symm

end Component

/-!
# The order of paths
-/

namespace Path

/-- The first path comes strictly before the second. -/
def Before (p q : Path) : Prop :=
  compare p.key q.key = .lt

theorem same_iff {p q : Path} : p.same q ↔ p.key = q.key := by
  simp [same]

theorem Before.trans {p q r : Path} (h : p.Before q) (h' : q.Before r) : p.Before r :=
  Std.TransCmp.lt_trans h h'

theorem Before.not_same {p q : Path} (h : p.Before q) : ¬ p.same q := by
  intro hsame
  rw [Before, same_iff.mp hsame, Std.ReflOrd.compare_self] at h
  cases h

theorem before_of_le {p q : Path} (h : p.le q) (hne : ¬ p.same q) : p.Before q := by
  unfold le at h
  rw [Component.compareKeys_eq] at h
  unfold Before
  cases hcompare : compare p.key q.key with
  | lt => rfl
  | eq => exact absurd (same_iff.mpr (Std.LawfulEqOrd.eq_of_compare hcompare)) hne
  | gt => simp [hcompare] at h

theorem before_of_not_le {p q : Path} (h : ¬ p.le q) : q.Before p := by
  unfold le at h
  rw [Component.compareKeys_eq] at h
  unfold Before
  rw [Std.OrientedOrd.eq_swap]
  cases hcompare : compare p.key q.key <;> simp [hcompare] at h ⊢

end Path

/-!
# Maps
-/

namespace PathMap

variable {ν μ : Type}

/-- The rows stand in strictly increasing order. -/
def Sorted (m : PathMap ν) : Prop :=
  m.rows.Pairwise fun row other => row.1.Before other.1

theorem sorted_empty : (∅ : PathMap ν).Sorted :=
  .nil

theorem mem_placeRow {p : Path} {v : ν} {rows : List (Path × ν)} {row : Path × ν}
    (h : row ∈ placeRow p v rows) : row.1.same p ∧ row.2 = v ∨ row ∈ rows := by
  induction rows with
  | nil =>
      rw [List.mem_singleton.mp h]
      exact .inl ⟨Path.same_iff.mpr rfl, rfl⟩
  | cons first rows ih =>
      unfold placeRow at h
      split at h
      · rename_i hsame
        rcases List.mem_cons.mp h with rfl | h
        · exact .inl ⟨hsame, rfl⟩
        · exact .inr (List.mem_cons_of_mem _ h)
      · split at h
        · rcases List.mem_cons.mp h with rfl | h
          · exact .inr List.mem_cons_self
          · exact (ih h).imp_right (List.mem_cons_of_mem _)
        · rcases List.mem_cons.mp h with rfl | h
          · exact .inl ⟨Path.same_iff.mpr rfl, rfl⟩
          · exact .inr h

theorem Sorted.insert {m : PathMap ν} (h : m.Sorted) (p : Path) (v : ν) :
    (m.insert p v).Sorted := by
  rcases m with ⟨rows⟩
  change (placeRow p v rows).Pairwise _
  unfold Sorted at h
  induction rows with
  | nil => exact List.pairwise_singleton _ _
  | cons first rows ih =>
      rcases List.pairwise_cons.mp h with ⟨hfirst, hrest⟩
      unfold placeRow
      split
      · exact List.pairwise_cons.mpr ⟨hfirst, hrest⟩
      · rename_i hdiffers
        split
        · rename_i hle
          refine List.pairwise_cons.mpr ⟨fun row hrow => ?_, ih hrest⟩
          rcases mem_placeRow hrow with ⟨hsame, _⟩ | hrow
          · have hbefore := Path.before_of_le hle hdiffers
            rwa [Path.Before, Path.same_iff.mp hsame]
          · exact hfirst row hrow
        · rename_i hle
          have hbefore := Path.before_of_not_le hle
          refine List.pairwise_cons.mpr ⟨fun row hrow => ?_, h⟩
          rcases List.mem_cons.mp hrow with rfl | hrow
          · exact hbefore
          · exact hbefore.trans (hfirst row hrow)

theorem Sorted.erase {m : PathMap ν} (h : m.Sorted) (p : Path) : (m.erase p).Sorted :=
  List.Pairwise.filter _ h

theorem get?_map (m : PathMap ν) (f : ν → μ) (p : Path) : (m.map f).get? p = (m.get? p).map f := by
  simp only [get?, map, List.find?_map, Option.map_map]
  rfl

theorem get?_insert (m : PathMap ν) (p q : Path) (v : ν) :
    (m.insert p v).get? q = if p.same q then some v else m.get? q := by
  rcases m with ⟨rows⟩
  unfold get? insert
  induction rows with
  | nil =>
      unfold placeRow
      by_cases hsame : p.same q <;> simp [hsame]
  | cons first rows ih =>
      have hcongr (h : first.1.same p) : first.1.same q = p.same q := by
        rw [Path.same, Path.same, Path.same_iff.mp h]
      unfold placeRow
      by_cases hfirst : first.1.same p
      · rw [if_pos hfirst]
        by_cases hsame : p.same q <;> simp [hcongr hfirst, hsame]
      · rw [if_neg hfirst]
        split
        · by_cases hq : first.1.same q
          · have hne : ¬ p.same q := fun h => hfirst
              (Path.same_iff.mpr ((Path.same_iff.mp hq).trans (Path.same_iff.mp h).symm))
            simp [hq, hne]
          · simpa [hq] using ih
        · by_cases hsame : p.same q <;> simp [hsame]

theorem get?_erase (m : PathMap ν) (p q : Path) :
    (m.erase p).get? q = if p.same q then none else m.get? q := by
  unfold get? erase
  rw [List.find?_filter]
  by_cases hsame : p.same q
  · rw [if_pos hsame, Option.map_eq_none_iff, List.find?_eq_none]
    intro row _
    simp [Path.same, Path.same_iff.mp hsame]
  · rw [if_neg hsame]
    congr 2
    funext row
    by_cases hrow : row.1.same q
    · have hdiffers : ¬ row.1.same p := fun h => hsame
        (Path.same_iff.mpr ((Path.same_iff.mp h).symm.trans (Path.same_iff.mp hrow)))
      simp [hrow, hdiffers]
    · simp [hrow]

theorem rows_eraseAll (m : PathMap ν) (paths : List Path) :
    (paths.foldl erase m).rows =
      m.rows.filter fun row => decide (∀ p ∈ paths, ¬ row.1.same p) := by
  induction paths generalizing m with
  | nil => exact (List.filter_eq_self.mpr (by simp)).symm
  | cons p paths ih =>
      rw [List.foldl_cons, ih, erase, List.filter_filter]
      congr 1
      funext row
      simp [Bool.and_comm]

section

variable {α : Type} (path : α → Path) (value : α → ν)

theorem get?_insertAll (m : PathMap ν) {items : List α} {q : Path}
    (h : ∀ x ∈ items, ¬ (path x).same q) :
    (items.foldl (fun m x => m.insert (path x) (value x)) m).get? q = m.get? q := by
  induction items generalizing m with
  | nil => rfl
  | cons x items ih =>
      rcases List.forall_mem_cons.mp h with ⟨hx, hrest⟩
      rw [List.foldl_cons, ih _ hrest, get?_insert, if_neg hx]

/-- Where no two items share a place, each has its value. -/
theorem get?_insertAll_of_mem (m : PathMap ν) {items : List α}
    (h : items.Pairwise fun x y => ¬ (path x).same (path y)) {x : α} (hx : x ∈ items) :
    (items.foldl (fun m x => m.insert (path x) (value x)) m).get? (path x) = some (value x) := by
  induction items generalizing m with
  | nil => cases hx
  | cons y items ih =>
      rcases List.pairwise_cons.mp h with ⟨hy, hrest⟩
      rw [List.foldl_cons]
      rcases List.mem_cons.mp hx with rfl | hx
      · have hapart : ∀ z ∈ items, ¬ (path z).same (path x) := fun z hz hsame =>
          hy z hz (Path.same_iff.mpr (Path.same_iff.mp hsame).symm)
        rw [get?_insertAll path value _ hapart, get?_insert, if_pos (Path.same_iff.mpr rfl)]
      · exact ih _ hrest hx

end

/-- In a sorted map a row is what a look-up of its path finds. -/
theorem Sorted.get?_of_mem {m : PathMap ν} (h : m.Sorted) {row : Path × ν} (hrow : row ∈ m.rows)
    {p : Path} (hp : row.1.same p) : m.get? p = some row.2 := by
  rcases m with ⟨rows⟩
  unfold Sorted at h
  unfold get?
  induction rows with
  | nil => cases hrow
  | cons first rows ih =>
      rcases List.pairwise_cons.mp h with ⟨hfirst, hrest⟩
      rcases List.mem_cons.mp hrow with rfl | hrow
      · simp [hp]
      · have hne : ¬ first.1.same p := fun hsame => (hfirst row hrow).not_same
          (Path.same_iff.mpr ((Path.same_iff.mp hsame).trans (Path.same_iff.mp hp).symm))
        simpa [hne] using ih hrest hrow

theorem mem_of_get? {m : PathMap ν} {p : Path} {v : ν} (h : m.get? p = some v) :
    ∃ row ∈ m.rows, row.1.same p ∧ row.2 = v := by
  rcases Option.map_eq_some_iff.mp h with ⟨row, hrow, rfl⟩
  have hsame : row.1.same p := List.find?_some (p := fun row : Path × ν => row.1.same p) hrow
  exact ⟨row, List.mem_of_find?_eq_some hrow, hsame, rfl⟩

end PathMap
end Ripple
