import Mathlib.Data.List.Chain
import Ripple.Edit.Change

/-!
# Which changes are accepted

Changes are accepted if their spans fit the text and no two of them conflict. For spans in
order it is enough that neighbours do not conflict, for then each of them stops before the
next one starts, and so before any later one.
-/

namespace Ripple

/-!
# Boundaries
-/

namespace Text

/-- The offset is not inside a character, nor behind the end of the text. -/
def IsBoundary (n : Nat) (text : List Char) : Prop :=
  ∃ front back, text = front ++ back ∧ byteLength front = n

theorem cut_append (front back : List Char) :
    cut (byteLength front) (front ++ back) = some (front, back) := by
  induction front with
  | nil => simp [cut]
  | cons c front ih =>
      have hpos := c.utf8Size_pos
      obtain ⟨n, hn⟩ : ∃ n, c.utf8Size + byteLength front = n + 1 :=
        Nat.exists_eq_add_one.mpr (by omega)
      have hrest : n + 1 - c.utf8Size = byteLength front := by omega
      rw [byteLength_cons, hn, List.cons_append, cut, if_pos (by omega), hrest, ih]
      rfl

theorem isSome_cut_iff {n : Nat} {text : List Char} :
    (cut n text).isSome ↔ IsBoundary n text := by
  constructor
  · intro h
    obtain ⟨parts, hparts⟩ := Option.isSome_iff_exists.mp h
    exact ⟨parts.1, parts.2, eq_append_of_cut hparts⟩
  · rintro ⟨front, back, rfl, rfl⟩
    rw [cut_append]
    rfl

theorem eq_nil_of_byteLength {text : List Char} (h : byteLength text = 0) : text = [] := by
  cases text with
  | nil => rfl
  | cons c rest =>
      have hpos := c.utf8Size_pos
      rw [byteLength_cons] at h
      omega

/-- A boundary behind a first part of a text splits what follows that part. -/
theorem IsBoundary.split {n : Nat} {front back : List Char} (h : IsBoundary n (front ++ back))
    (hn : byteLength front ≤ n) :
    ∃ mid rest, back = mid ++ rest ∧ byteLength front + byteLength mid = n := by
  obtain ⟨front', back', heq, rfl⟩ := h
  rcases List.append_eq_append_iff.mp heq with ⟨mid, rfl, rfl⟩ | ⟨mid, rfl, rfl⟩
  · exact ⟨mid, back', rfl, (byteLength_append ..).symm⟩
  · have hmid : mid = [] := by
      apply eq_nil_of_byteLength
      rw [byteLength_append] at hn
      omega
    subst hmid
    exact ⟨[], back, rfl, by simp⟩

end Text

/-!
# Spans
-/

namespace Span

/-- The span lies within the text and does not cut a character. -/
structure Fits (text : List Char) (s : Span) : Prop where
  ends : s.start + s.length < limit
  within : s.start + s.length ≤ Text.byteLength text
  starts : Text.IsBoundary s.start text
  stops : Text.IsBoundary (s.start + s.length) text

/-- A span that fits a text, and starts behind a first part of it, cuts what follows. -/
theorem Fits.split {front rest : List Char} {s : Span} (h : s.Fits (front ++ rest))
    (hfront : Text.byteLength front ≤ s.start) :
    ∃ kept gone after, rest = kept ++ (gone ++ after) ∧
      Text.byteLength front + Text.byteLength kept = s.start ∧
      Text.byteLength gone = s.length := by
  obtain ⟨kept, behind, rfl, hkept⟩ := h.starts.split hfront
  have hstops := h.stops
  rw [← List.append_assoc] at hstops
  obtain ⟨gone, after, rfl, hgone⟩ := hstops.split (by rw [Text.byteLength_append]; omega)
  rw [Text.byteLength_append] at hgone
  exact ⟨kept, gone, after, rfl, hkept, by omega⟩

/-- The byte at an offset is one of the span. -/
def Covers (s : Span) (offset : Nat) : Prop :=
  s.start ≤ offset ∧ offset < s.start + s.length

instance (s : Span) (offset : Nat) : Decidable (s.Covers offset) :=
  inferInstanceAs (Decidable (_ ∧ _))

/-- The spans share a byte, one is an insertion strictly inside the other, or they are one
and the same span that is not empty. -/
def Conflict (s t : Span) : Prop :=
  (∃ offset, s.Covers offset ∧ t.Covers offset) ∨
    (s.length = 0 ∧ t.start < s.start ∧ s.start < t.start + t.length) ∨
    (t.length = 0 ∧ s.start < t.start ∧ t.start < s.start + s.length) ∨
    (s = t ∧ 0 < s.length)

theorem Conflict.symm {s t : Span} (h : s.Conflict t) : t.Conflict s := by
  rcases h with ⟨offset, hs, ht⟩ | h | h | ⟨rfl, h⟩
  · exact .inl ⟨offset, ht, hs⟩
  · exact .inr (.inr (.inl h))
  · exact .inr (.inl h)
  · exact .inr (.inr (.inr ⟨rfl, h⟩))

/-- The first span stops before the second one starts. -/
def Precedes (s t : Span) : Prop :=
  s.start + s.length ≤ t.start

theorem Precedes.not_conflict {s t : Span} (h : s.Precedes t) : ¬ s.Conflict t := by
  unfold Precedes at h
  rintro (⟨offset, hs, ht⟩ | hinside | hinside | ⟨rfl, hlength⟩)
  · unfold Covers at hs ht
    omega
  all_goals omega

theorem stop_of_ends {s : Span} (h : s.start + s.length < limit) :
    s.stop = s.start + s.length := by
  unfold stop
  omega

section Ends

variable {s t : Span} (hs : s.start + s.length < limit) (ht : t.start + t.length < limit)
include hs ht

theorem conflicts_iff : s.conflicts t ↔ s.Conflict t := by
  simp only [conflicts, overlaps, stop_of_ends hs, stop_of_ends ht, Bool.or_eq_true,
    Bool.and_eq_true, decide_eq_true_eq]
  constructor
  · rintro (hoverlap | hsame)
    · by_cases hempty : s.length = 0
      · exact .inr (.inl ⟨hempty, by omega⟩)
      · by_cases hempty' : t.length = 0
        · exact .inr (.inr (.inl ⟨hempty', by omega⟩))
        · exact .inl ⟨max s.start t.start, ⟨by omega, by omega⟩, ⟨by omega, by omega⟩⟩
    · exact .inr (.inr (.inr hsame))
  · rintro (⟨offset, hs', ht'⟩ | hinside | hinside | hsame)
    · unfold Covers at hs' ht'
      exact .inl (by omega)
    · exact .inl (by omega)
    · exact .inl (by omega)
    · exact .inr hsame

/-- Two spans in order do not conflict just if the first stops before the second starts. -/
theorem not_conflict_iff_precedes (hle : s.le t) : ¬ s.Conflict t ↔ s.Precedes t := by
  simp only [le, stop_of_ends hs, stop_of_ends ht, Bool.or_eq_true, Bool.and_eq_true,
    decide_eq_true_eq] at hle
  refine ⟨fun h => ?_, Precedes.not_conflict⟩
  by_contra hlater
  apply h
  unfold Precedes at hlater
  by_cases hempty : t.length = 0
  · exact .inr (.inr (.inl ⟨hempty, by omega⟩))
  · exact .inl ⟨t.start, ⟨by omega, by omega⟩, ⟨by omega, by omega⟩⟩

end Ends

theorem Precedes.trans {s t u : Span} (h : s.Precedes t) (h' : t.Precedes u) :
    s.Precedes u := by
  unfold Precedes at *
  omega

theorem le_trans {s t u : Span} (h : s.le t) (h' : t.le u) : s.le u := by
  simp only [le, Bool.or_eq_true, Bool.and_eq_true, decide_eq_true_eq] at *
  omega

theorem le_total (s t : Span) : s.le t || t.le s := by
  simp only [le, Bool.or_eq_true, Bool.and_eq_true, decide_eq_true_eq]
  omega

end Span

/-!
# Changes
-/

namespace Change

theorem cuts_iff {text : List Char} {s : Span} :
    ((Text.cut s.start text).isNone || (Text.cut (s.start + s.length) text).isNone) = false ↔
      Text.IsBoundary s.start text ∧ Text.IsBoundary (s.start + s.length) text := by
  rw [Bool.or_eq_false_iff, Option.isNone_eq_false_iff, Option.isNone_eq_false_iff,
    Text.isSome_cut_iff, Text.isSome_cut_iff]

theorem fault?_eq_none_iff {text : List Char} {s : Span} :
    fault? text s = none ↔ s.Fits text := by
  unfold fault? Span.stop?
  constructor
  · intro h
    by_cases hends : s.start + s.length < Span.limit
    · rw [if_pos hends] at h
      simp only at h
      split at h
      · cases h
      · rename_i hwithin
        split at h
        · cases h
        · rename_i hcuts
          have hboundaries := cuts_iff.mp (eq_false_of_ne_true hcuts)
          exact ⟨hends, Nat.not_lt.mp hwithin, hboundaries.left, hboundaries.right⟩
    · rw [if_neg hends] at h
      cases h
  · intro h
    have hcuts := cuts_iff.mpr ⟨h.starts, h.stops⟩
    rw [if_pos h.ends]
    simp only
    rw [if_neg (Nat.not_lt.mpr h.within), hcuts]
    rfl

theorem findSome?_fault?_eq_none_iff {text : List Char} {changes : List Change} :
    (changes.findSome? fun c => fault? text c.span) = none ↔
      ∀ c ∈ changes, c.span.Fits text := by
  rw [List.findSome?_eq_none_iff]
  simp only [fault?_eq_none_iff]

theorem conflict?_eq_none_iff {changes : List Change} :
    conflict? changes = none ↔ changes.IsChain fun c d => ¬ c.span.conflicts d.span := by
  fun_induction conflict? changes with
  | case1 c d rest h => simp [h]
  | case2 c d rest h ih => simp [h, ih]
  | case3 changes h =>
      match changes, h with
      | [], _ => simp
      | [c], _ => simp
      | c :: d :: rest, h => exact absurd rfl (h c d rest)

theorem ordered_perm (changes : List Change) : (ordered changes).Perm changes :=
  List.mergeSort_perm _ _

/-- The order that the changes are put in. -/
def before (c d : Change) : Bool :=
  c.span.le d.span

theorem before_trans (c d e : Change) : before c d → before d e → before c e :=
  Span.le_trans

theorem before_total (c d : Change) : before c d || before d c :=
  Span.le_total c.span d.span

theorem pairwise_le_ordered (changes : List Change) :
    (ordered changes).Pairwise fun c d => c.span.le d.span :=
  List.pairwise_mergeSort before_trans before_total changes

/-- No two of the changes conflict. -/
def Apart (changes : List Change) : Prop :=
  changes.Pairwise fun c d => ¬ c.span.Conflict d.span

theorem apart_perm {changes changes' : List Change} (h : changes'.Perm changes) :
    Apart changes' ↔ Apart changes :=
  h.pairwise_iff fun hnone hconflict => hnone hconflict.symm

/-- The span of the first change stops before that of the second one starts. -/
def Precedes (c d : Change) : Prop :=
  c.span.Precedes d.span

instance : Trans Precedes Precedes Precedes where
  trans h h' := Span.Precedes.trans h h'

section Fitting

variable {text : List Char} {changes : List Change} (hfits : ∀ c ∈ changes, c.span.Fits text)
include hfits

theorem fits_ordered : ∀ c ∈ ordered changes, c.span.Fits text :=
  fun c hc => hfits c ((ordered_perm changes).mem_iff.mp hc)

theorem not_conflict_iff_precedes {c d : Change} (hc : c ∈ ordered changes)
    (hd : d ∈ ordered changes) (hle : c.span.le d.span) :
    ¬ c.span.Conflict d.span ↔ c.Precedes d :=
  Span.not_conflict_iff_precedes (fits_ordered hfits c hc).ends (fits_ordered hfits d hd).ends hle

/-- Changes are apart if and only if each stops before any later one in order starts. -/
theorem apart_iff_pairwise_precedes : Apart changes ↔ (ordered changes).Pairwise Precedes := by
  rw [← apart_perm (ordered_perm changes)]
  constructor
  · intro hapart
    refine ((pairwise_le_ordered changes).and hapart).imp_of_mem fun {c d} hc hd h => ?_
    exact (not_conflict_iff_precedes hfits hc hd h.left).mp h.right
  · exact List.Pairwise.imp fun h => Span.Precedes.not_conflict h

/-- It is enough to look at neighbours. -/
theorem conflict?_ordered_eq_none_iff :
    conflict? (ordered changes) = none ↔ Apart changes := by
  rw [conflict?_eq_none_iff, apart_iff_pairwise_precedes hfits, ← List.isChain_iff_pairwise,
    List.isChain_iff_getElem, List.isChain_iff_getElem]
  refine forall_congr' fun i => forall_congr' fun hi => ?_
  have hc := List.getElem_mem (l := ordered changes) (by omega : i < _)
  have hd := List.getElem_mem (l := ordered changes) hi
  have hle := List.pairwise_iff_getElem.mp (pairwise_le_ordered changes) i (i + 1) (by omega) hi
    (Nat.lt_succ_self i)
  rw [Span.conflicts_iff (fits_ordered hfits _ hc).ends (fits_ordered hfits _ hd).ends]
  exact not_conflict_iff_precedes hfits hc hd hle

end Fitting

/-- The spans of the changes fit the text, and no two of the changes conflict. -/
structure Acceptable (text : List Char) (changes : List Change) : Prop where
  fits : ∀ c ∈ changes, c.span.Fits text
  apart : Apart changes

theorem Acceptable.perm {text : List Char} {changes changes' : List Change}
    (h : Acceptable text changes) (hperm : changes'.Perm changes) : Acceptable text changes' :=
  ⟨fun c hc => h.fits c (hperm.mem_iff.mp hc), (apart_perm hperm).mpr h.apart⟩

theorem Acceptable.precedes {text : List Char} {changes : List Change}
    (h : Acceptable text changes) :
    (ordered changes).Pairwise Precedes :=
  (apart_iff_pairwise_precedes h.fits).mp h.apart

/-- What is accepted comes out as the substitution says. -/
theorem applyAll_eq_ok_iff {text : String} {changes : List Change} {result : String} :
    applyAll text changes = .ok result ↔ Acceptable text.toList changes ∧
      result = String.ofList (substitute 0 text.toList (ordered changes)) := by
  unfold applyAll
  cases hfault : changes.findSome? fun c => fault? text.toList c.span with
  | some e =>
      simp only [reduceCtorEq, false_iff]
      rintro ⟨h, _⟩
      rw [findSome?_fault?_eq_none_iff.mpr h.fits] at hfault
      cases hfault
  | none =>
      have hfits := findSome?_fault?_eq_none_iff.mp hfault
      simp only
      cases hconflict : conflict? (ordered changes) with
      | some e =>
          simp only [reduceCtorEq, false_iff]
          rintro ⟨h, _⟩
          rw [(conflict?_ordered_eq_none_iff hfits).mpr h.apart] at hconflict
          cases hconflict
      | none =>
          have hapart := (conflict?_ordered_eq_none_iff hfits).mp hconflict
          constructor
          · intro h
            cases h
            exact ⟨⟨hfits, hapart⟩, rfl⟩
          · rintro ⟨_, rfl⟩
            rfl

end Change
end Ripple
