import Ripple.Proofs.Edit.Acceptance

/-!
# Changes as one substitution

Accepted changes give the text that is read from left to right: at every offset come the
insertions there, then what replaces a span that starts there, then the character, unless a
replaced span covers it. This reading depends on the order of a list only by the order of the
insertions at each offset. The changes can also be carried out in place, one after the other,
if the last one in order goes first: an earlier span then never moves.
-/

namespace Ripple
namespace Change

/-!
# Reading
-/

/-- What the insertions and the replacements at an offset put there. -/
def insertionsAt (changes : List Change) (offset : Nat) : List Change :=
  changes.filter fun c => c.span = ⟨offset, 0⟩

def replacementsAt (changes : List Change) (offset : Nat) : List Change :=
  changes.filter fun c => c.span.start = offset ∧ 0 < c.span.length

def placed (changes : List Change) (offset : Nat) : List Char :=
  (insertionsAt changes offset ++ replacementsAt changes offset).flatMap (·.newText.toList)

/-- Reads what follows an offset of the text, every replaced span being substituted. -/
def reading (changes : List Change) : Nat → List Char → List Char
  | offset, [] => placed changes offset
  | offset, c :: rest =>
      placed changes offset ++
        (if ∃ d ∈ changes, d.span.Covers offset then [] else [c]) ++
        reading changes (offset + c.utf8Size) rest

theorem insertionsAt_cons (c : Change) (cs : List Change) (offset : Nat) :
    insertionsAt (c :: cs) offset =
      if c.span = ⟨offset, 0⟩ then c :: insertionsAt cs offset else insertionsAt cs offset := by
  simp [insertionsAt, List.filter_cons]

theorem replacementsAt_cons (c : Change) (cs : List Change) (offset : Nat) :
    replacementsAt (c :: cs) offset =
      if c.span.start = offset ∧ 0 < c.span.length then c :: replacementsAt cs offset
      else replacementsAt cs offset := by
  simp [replacementsAt, List.filter_cons]

theorem insertionsAt_eq_nil {cs : List Change} {offset : Nat}
    (h : ∀ d ∈ cs, d.span.start ≠ offset) : insertionsAt cs offset = [] := by
  refine List.filter_eq_nil_iff.mpr fun d hd => ?_
  have hne : d.span ≠ ⟨offset, 0⟩ := fun heq => h d hd (congrArg Span.start heq)
  simpa using hne

theorem replacementsAt_eq_nil {cs : List Change} {offset : Nat}
    (h : ∀ d ∈ cs, d.span.start ≠ offset) : replacementsAt cs offset = [] := by
  refine List.filter_eq_nil_iff.mpr fun d hd => ?_
  simp [h d hd]

theorem placed_eq_nil {cs : List Change} {offset : Nat}
    (h : ∀ d ∈ cs, d.span.start ≠ offset) : placed cs offset = [] := by
  rw [placed, insertionsAt_eq_nil h, replacementsAt_eq_nil h]
  rfl

theorem placed_cons_of_ne {c : Change} {offset : Nat} (h : c.span.start ≠ offset)
    (cs : List Change) : placed (c :: cs) offset = placed cs offset := by
  have hne : c.span ≠ ⟨offset, 0⟩ := fun heq => h (congrArg Span.start heq)
  rw [placed, placed, insertionsAt_cons, replacementsAt_cons, if_neg hne,
    if_neg fun hstart => h hstart.left]

theorem placed_cons_insertion {c : Change} {offset : Nat} (h : c.span = ⟨offset, 0⟩)
    (cs : List Change) : placed (c :: cs) offset = c.newText.toList ++ placed cs offset := by
  rw [placed, placed, insertionsAt_cons, replacementsAt_cons, if_pos h, if_neg (by simp [h])]
  rfl

theorem placed_cons_replacement {c : Change} (hpos : 0 < c.span.length) {cs : List Change}
    (h : ∀ d ∈ cs, d.span.start ≠ c.span.start) :
    placed (c :: cs) c.span.start = c.newText.toList := by
  have hne : c.span ≠ ⟨c.span.start, 0⟩ := fun heq =>
    Nat.ne_of_gt hpos (congrArg Span.length heq)
  rw [placed, insertionsAt_cons, replacementsAt_cons, if_neg hne, if_pos ⟨rfl, hpos⟩,
    insertionsAt_eq_nil h, replacementsAt_eq_nil h]
  simp

/-- Where no change starts before the end of a stretch, and none covers it, it is kept. -/
theorem reading_append {cs : List Change} (front : List Char) {offset : Nat}
    (h : ∀ d ∈ cs, offset + Text.byteLength front ≤ d.span.start) (rest : List Char) :
    reading cs offset (front ++ rest) =
      front ++ reading cs (offset + Text.byteLength front) rest := by
  induction front generalizing offset with
  | nil => rfl
  | cons c front ih =>
      have hpos := c.utf8Size_pos
      rw [Text.byteLength_cons] at h
      have hplaced : placed cs offset = [] := placed_eq_nil fun d hd hstart => by
        have := h d hd
        omega
      have hcovers : ¬ ∃ d ∈ cs, d.span.Covers offset := fun ⟨d, hd, hle, _⟩ => by
        have := h d hd
        omega
      rw [List.cons_append, reading, hplaced, if_neg hcovers,
        ih fun d hd => by have := h d hd; omega, Text.byteLength_cons, Nat.add_assoc]
      rfl

/-- A stretch that is covered, and where no change starts, is dropped. -/
theorem reading_covered {cs : List Change} {c : Change} (hc : c ∈ cs) (gone : List Char)
    {offset : Nat} (hstart : c.span.start ≤ offset)
    (hstop : offset + Text.byteLength gone = c.span.start + c.span.length)
    (h : ∀ d ∈ cs, d.span.start < offset ∨ offset + Text.byteLength gone ≤ d.span.start)
    (rest : List Char) :
    reading cs offset (gone ++ rest) = reading cs (offset + Text.byteLength gone) rest := by
  induction gone generalizing offset with
  | nil => rfl
  | cons x gone ih =>
      have hpos := x.utf8Size_pos
      rw [Text.byteLength_cons] at h hstop
      have hplaced : placed cs offset = [] := placed_eq_nil fun d hd heq => by
        have := h d hd
        omega
      have hcovers : ∃ d ∈ cs, d.span.Covers offset := ⟨c, hc, hstart, by omega⟩
      rw [List.cons_append, reading, hplaced, if_pos hcovers,
        ih (by omega) (by omega) fun d hd => by have := h d hd; omega, Text.byteLength_cons,
        Nat.add_assoc]
      rfl

/-- A change that starts and stops before an offset is not read behind it. -/
theorem reading_cons_past {c : Change} {offset : Nat} (hstart : c.span.start < offset)
    (hstop : c.span.start + c.span.length ≤ offset) (cs : List Change) (rest : List Char) :
    reading (c :: cs) offset rest = reading cs offset rest := by
  induction rest generalizing offset with
  | nil => exact placed_cons_of_ne (Nat.ne_of_lt hstart) cs
  | cons x rest ih =>
      have hcovers : (∃ d ∈ c :: cs, d.span.Covers offset) ↔ ∃ d ∈ cs, d.span.Covers offset := by
        have hpast : ¬ c.span.Covers offset := fun h => by
          have := h.right
          omega
        simp [hpast]
      rw [reading, reading, placed_cons_of_ne (Nat.ne_of_lt hstart),
        ih (by omega) (by omega)]
      simp only [hcovers]

/-- An insertion is read where it is made, before all else. -/
theorem reading_cons_insertion {c : Change} {offset : Nat} (h : c.span = ⟨offset, 0⟩)
    (cs : List Change) (rest : List Char) :
    reading (c :: cs) offset rest = c.newText.toList ++ reading cs offset rest := by
  cases rest with
  | nil => exact placed_cons_insertion h cs
  | cons x rest =>
      have hpos := x.utf8Size_pos
      have hcovers : (∃ d ∈ c :: cs, d.span.Covers offset) ↔ ∃ d ∈ cs, d.span.Covers offset := by
        simp [h, Span.Covers]
      rw [reading, reading, placed_cons_insertion h,
        reading_cons_past (by simp [h, hpos]) (by simp [h])]
      simp only [hcovers, List.append_assoc]

/-- A replacement is read for all of its span. -/
theorem reading_cons_replacement {c : Change} {cs : List Change} {gone : List Char}
    (hgone : Text.byteLength gone = c.span.length) (hpos : 0 < c.span.length)
    (h : ∀ d ∈ cs, c.Precedes d) (rest : List Char) :
    reading (c :: cs) c.span.start (gone ++ rest) =
      c.newText.toList ++ reading cs (c.span.start + c.span.length) rest := by
  cases gone with
  | nil => exact absurd hgone (Nat.ne_of_lt hpos)
  | cons x gone =>
      have hx := x.utf8Size_pos
      rw [Text.byteLength_cons] at hgone
      have hplaced : placed (c :: cs) c.span.start = c.newText.toList :=
        placed_cons_replacement hpos fun d hd => by
          have := h d hd
          unfold Precedes Span.Precedes at this
          omega
      have hcovers : ∃ d ∈ c :: cs, d.span.Covers c.span.start :=
        ⟨c, List.mem_cons_self, Nat.le_refl _, by omega⟩
      have hstop : c.span.start + x.utf8Size + Text.byteLength gone =
          c.span.start + c.span.length := by omega
      rw [List.cons_append, reading, hplaced, if_pos hcovers,
        reading_covered List.mem_cons_self gone (by omega) hstop, hstop,
        reading_cons_past (by omega) (Nat.le_refl _)]
      · simp
      · intro d hd
        rcases List.mem_cons.mp hd with rfl | hd
        · left
          omega
        · right
          rw [hstop]
          exact h d hd

/-!
# One change after the other

Of changes in order, each is carried out on a stretch that those before it do not touch.
-/

/-- The changes fit a text, are in order and apart, and start behind a first part of it. -/
structure Follow (front rest : List Char) (cs : List Change) : Prop where
  fits : ∀ c ∈ cs, c.span.Fits (front ++ rest)
  precedes : cs.Pairwise Precedes
  behind : ∀ c ∈ cs, Text.byteLength front ≤ c.span.start

/-- The first of the changes cuts the rest of the text, and the others follow its span. -/
theorem Follow.split {front rest : List Char} {c : Change} {cs : List Change}
    (h : Follow front rest (c :: cs)) :
    ∃ kept gone after, rest = kept ++ (gone ++ after) ∧
      Text.byteLength front + Text.byteLength kept = c.span.start ∧
      Text.byteLength gone = c.span.length ∧ Follow (front ++ (kept ++ gone)) after cs := by
  have hc := List.mem_cons_self (a := c) (l := cs)
  obtain ⟨kept, gone, after, rfl, hkept, hgone⟩ := (h.fits c hc).split (h.behind c hc)
  obtain ⟨hprecedes, htail⟩ := List.pairwise_cons.mp h.precedes
  refine ⟨kept, gone, after, rfl, hkept, hgone, ?_, htail, fun d hd => ?_⟩
  · intro d hd
    simpa using h.fits d (List.mem_cons_of_mem c hd)
  · have hd := hprecedes d hd
    unfold Precedes Span.Precedes at hd
    simp only [Text.byteLength_append]
    omega

theorem cut_kept {front kept after : List Char} {n : Nat}
    (h : Text.byteLength front + Text.byteLength kept = n) :
    Text.cut (n - Text.byteLength front) (kept ++ after) = some (kept, after) := by
  rw [← h, Nat.add_sub_cancel_left, Text.cut_append]

/-- The substitution of the first change, and then of the others. -/
theorem substitute_cons {front kept gone after : List Char} {c : Change} {cs : List Change}
    (hends : c.span.start + c.span.length < Span.limit)
    (hkept : Text.byteLength front + Text.byteLength kept = c.span.start)
    (hgone : Text.byteLength gone = c.span.length) :
    substitute (Text.byteLength front) (kept ++ (gone ++ after)) (c :: cs) =
      kept ++ (c.newText.toList ++
        substitute (Text.byteLength (front ++ (kept ++ gone))) after cs) := by
  have hstop : Text.byteLength (front ++ (kept ++ gone)) = c.span.stop := by
    rw [Span.stop_of_ends hends, Text.byteLength_append, Text.byteLength_append]
    omega
  rw [substitute, cut_kept hkept, hstop, ← hgone]
  simp only [Option.getD_some, Text.cut_append, List.append_assoc]

theorem substitute_eq_reading {front rest : List Char} {cs : List Change}
    (h : Follow front rest cs) :
    substitute (Text.byteLength front) rest cs = reading cs (Text.byteLength front) rest := by
  induction cs generalizing front rest with
  | nil =>
      have hnone : ∀ d ∈ ([] : List Change),
          Text.byteLength front + Text.byteLength rest ≤ d.span.start :=
        fun d hd => absurd hd List.not_mem_nil
      have hkept := reading_append rest hnone []
      rw [List.append_nil] at hkept
      rw [hkept]
      exact (List.append_nil rest).symm
  | cons c cs ih =>
      obtain ⟨kept, gone, after, rfl, hkept, hgone, hfollow⟩ := h.split
      obtain ⟨hprecedes, _⟩ := List.pairwise_cons.mp h.precedes
      have hbehind : ∀ d ∈ c :: cs,
          Text.byteLength front + Text.byteLength kept ≤ d.span.start := by
        intro d hd
        rcases List.mem_cons.mp hd with rfl | hd
        · exact Nat.le_of_eq hkept
        · have hd := hprecedes d hd
          unfold Precedes Span.Precedes at hd
          omega
      rw [substitute_cons (h.fits c List.mem_cons_self).ends hkept hgone, ih hfollow,
        reading_append kept hbehind, hkept]
      simp only [Text.byteLength_append, ← Nat.add_assoc, hkept, hgone]
      congr 1
      rcases Nat.eq_zero_or_pos c.span.length with hempty | hpos
      · have hgone : gone = [] := Text.eq_nil_of_byteLength (hgone.trans hempty)
        have hspan : c.span = ⟨c.span.start, 0⟩ := by rw [← hempty]
        rw [hgone, List.nil_append, reading_cons_insertion hspan, hempty, Nat.add_zero]
      · rw [reading_cons_replacement hgone hpos hprecedes]

/-- Replaces a span in place, if it cuts the text at both of its ends. -/
def replaceRange? (text : List Char) (s : Span) (newText : List Char) : Option (List Char) :=
  match Text.cut s.start text, Text.cut s.stop text with
  | some before, some after => some (before.1 ++ newText ++ after.2)
  | _, _ => none

theorem foldrM_replaceRange? {front rest : List Char} {cs : List Change}
    (h : Follow front rest cs) :
    cs.foldrM (fun c text => replaceRange? text c.span c.newText.toList) (front ++ rest) =
      some (front ++ substitute (Text.byteLength front) rest cs) := by
  induction cs generalizing front rest with
  | nil => rfl
  | cons c cs ih =>
      obtain ⟨kept, gone, after, rfl, hkept, hgone, hfollow⟩ := h.split
      have hends := (h.fits c List.mem_cons_self).ends
      have hlater := ih hfollow
      rw [substitute_cons hends hkept hgone, List.foldrM_cons]
      simp only [List.append_assoc] at hlater ⊢
      rw [hlater]
      generalize substitute _ after cs = later
      have hstart : Text.cut c.span.start (front ++ (kept ++ (gone ++ later))) =
          some (front ++ kept, gone ++ later) := by
        rw [← List.append_assoc, ← hkept, ← Text.byteLength_append, Text.cut_append]
      have hstop : Text.cut c.span.stop (front ++ (kept ++ (gone ++ later))) =
          some (front ++ kept ++ gone, later) := by
        rw [Span.stop_of_ends hends, ← hkept, ← hgone, ← Text.byteLength_append,
          ← Text.byteLength_append, ← List.append_assoc, ← List.append_assoc, Text.cut_append]
      simp only [Option.bind_eq_bind, Option.bind_some, replaceRange?, hstart, hstop,
        List.append_assoc]

/-!
# The last change first
-/

/-- From the last start down; of equal spans the later one of the list comes first. -/
def backward (changes : List Change) : List Change :=
  ((changes.zipIdx.mergeSort fun c d => c.1.span.le d.1.span).mergeSort fun c d =>
    List.zipIdxLE (fun c d => c.span.le d.span) d c).map Prod.fst

theorem zipIdxLE_antisymm {le : Change → Change → Bool} {changes : List Change}
    {c d : Change × Nat} (hc : c ∈ changes.zipIdx) (hd : d ∈ changes.zipIdx)
    (hcd : List.zipIdxLE le c d) (hdc : List.zipIdxLE le d c) : c = d := by
  have hindex : c.2 = d.2 := by
    unfold List.zipIdxLE at hcd hdc
    by_cases h : le c.1 d.1
    · by_cases h' : le d.1 c.1
      · simp only [h, h', if_true, decide_eq_true_eq] at hcd hdc
        omega
      · simp [h'] at hdc
    · simp [h] at hcd
  rw [List.mem_zipIdx_iff_getElem?] at hc hd
  rw [hindex, hd] at hc
  exact Prod.ext (Option.some.inj hc).symm hindex

theorem backward_eq (changes : List Change) : backward changes = (ordered changes).reverse := by
  have htrans := List.zipIdxLE_trans before_trans
  have htotal := List.zipIdxLE_total before_total
  have hforward : ordered changes =
      (changes.zipIdx.mergeSort (List.zipIdxLE before)).map Prod.fst := List.mergeSort_zipIdx.symm
  rw [backward, hforward, ← List.map_reverse]
  congr 1
  -- Both lists are in the reverse of an order that no two elements share a place in.
  let after (c d : Change × Nat) : Bool := List.zipIdxLE before d c
  have hafter : ∀ b c d, after b c → after c d → after b d :=
    fun b c d h h' => htrans d c b h' h
  have hleft := List.pairwise_mergeSort hafter (fun c d => htotal d c)
    (changes.zipIdx.mergeSort fun c d => before c.1 d.1)
  have hright := List.pairwise_reverse.mpr
    (List.pairwise_mergeSort htrans htotal changes.zipIdx)
  refine List.Perm.eq_of_pairwise ?_ hleft hright ?_
  · intro c d hc hd hcd hdc
    have hc := List.mem_mergeSort.mp (List.mem_mergeSort.mp hc)
    have hd := List.mem_mergeSort.mp (List.mem_reverse.mp hd)
    exact zipIdxLE_antisymm hc hd hdc hcd
  · exact ((List.mergeSort_perm _ _).trans (List.mergeSort_perm _ _)).trans
      ((List.mergeSort_perm _ _).symm.trans (List.reverse_perm _).symm)

/-- Carries changes out in place, the last one first. There is no result where a replacement
does not find the ends of its span. -/
def inPlace? (text : String) (changes : List Change) : Option (Except ChangeError String) :=
  match changes.findSome? fun c => fault? text.toList c.span with
  | some e => some (.error e)
  | none =>
      match conflict? (ordered changes) with
      | some e => some (.error e)
      | none =>
          ((backward changes).foldlM
            (fun text c => replaceRange? text c.span c.newText.toList) text.toList).map
            fun result => .ok (String.ofList result)

theorem Acceptable.follow {text : List Char} {changes : List Change}
    (h : Acceptable text changes) : Follow [] text (ordered changes) :=
  ⟨fits_ordered h.fits, h.precedes, fun _ _ => Nat.zero_le _⟩

theorem inPlace?_eq (text : String) (changes : List Change) :
    inPlace? text changes = some (applyAll text changes) := by
  unfold inPlace? applyAll
  cases hfault : changes.findSome? fun c => fault? text.toList c.span with
  | some e => rfl
  | none =>
      have hfits := findSome?_fault?_eq_none_iff.mp hfault
      simp only
      cases hconflict : conflict? (ordered changes) with
      | some e => rfl
      | none =>
          have haccept : Acceptable text.toList changes :=
            ⟨hfits, (conflict?_ordered_eq_none_iff hfits).mp hconflict⟩
          have hfold := foldrM_replaceRange? haccept.follow
          simp only [List.nil_append] at hfold
          simp only [backward_eq, List.foldlM_reverse, hfold]
          rfl

/-!
# The order of a list
-/

theorem insertionsAt_ordered (changes : List Change) (offset : Nat) :
    insertionsAt (ordered changes) offset = insertionsAt changes offset := by
  have hsorted : (insertionsAt changes offset).Pairwise fun c d => before c d := by
    refine List.pairwise_of_forall_mem_list fun c hc d hd => ?_
    have hc : c.span = ⟨offset, 0⟩ := by simpa using (List.mem_filter.mp hc).right
    have hd : d.span = ⟨offset, 0⟩ := by simpa using (List.mem_filter.mp hd).right
    rw [before, hc, hd]
    simp [Span.le]
  have hkept := (List.sublist_mergeSort before_trans before_total hsorted
    List.filter_sublist).filter fun c => c.span = ⟨offset, 0⟩
  rw [insertionsAt, List.filter_filter] at hkept
  simp only [Bool.and_self] at hkept
  exact (hkept.eq_of_length ((ordered_perm changes).filter _).length_eq.symm).symm

theorem length_replacementsAt_le {changes : List Change} (h : Apart changes) (offset : Nat) :
    (replacementsAt changes offset).length ≤ 1 := by
  have hapart : (replacementsAt changes offset).Pairwise fun _ _ => False := by
    refine (h.filter _).imp_of_mem fun {c d} hc hd hnone => hnone (.inl ⟨offset, ?_, ?_⟩)
    · have hc := (List.mem_filter.mp hc).right
      simp only [decide_eq_true_eq] at hc
      exact ⟨by omega, by omega⟩
    · have hd := (List.mem_filter.mp hd).right
      simp only [decide_eq_true_eq] at hd
      exact ⟨by omega, by omega⟩
  match hat : replacementsAt changes offset with
  | [] => exact Nat.zero_le 1
  | [c] => exact Nat.le_refl 1
  | c :: d :: rest =>
      rw [hat] at hapart
      exact absurd (List.rel_of_pairwise_cons hapart List.mem_cons_self) id

section Perm

variable {changes changes' : List Change} (hperm : changes'.Perm changes)
include hperm

theorem replacementsAt_perm (h : Apart changes) (offset : Nat) :
    replacementsAt changes' offset = replacementsAt changes offset := by
  have hfilter : (replacementsAt changes' offset).Perm (replacementsAt changes offset) :=
    hperm.filter _
  have hlength := length_replacementsAt_le h offset
  match hat : replacementsAt changes offset with
  | [] =>
      rw [hat] at hfilter
      exact hfilter.eq_nil
  | [c] =>
      rw [hat] at hfilter
      exact List.perm_singleton.mp hfilter
  | c :: d :: rest =>
      rw [hat] at hlength
      simp at hlength

theorem reading_perm (h : Apart changes)
    (hinsertions : ∀ offset, insertionsAt changes' offset = insertionsAt changes offset)
    (offset : Nat) (rest : List Char) :
    reading changes' offset rest = reading changes offset rest := by
  have hplaced : ∀ offset, placed changes' offset = placed changes offset := fun offset => by
    rw [placed, placed, hinsertions, replacementsAt_perm hperm h]
  induction rest generalizing offset with
  | nil => exact hplaced offset
  | cons c rest ih =>
      rw [reading, reading, hplaced, ih]
      simp only [hperm.mem_iff]

end Perm

/-- What is accepted is the text as it is read. -/
theorem Acceptable.substitute_eq {text : List Char} {changes : List Change}
    (h : Acceptable text changes) :
    substitute 0 text (ordered changes) = reading changes 0 text :=
  (substitute_eq_reading h.follow).trans
    (reading_perm (ordered_perm changes) h.apart (insertionsAt_ordered changes) 0 text)

theorem applyAll_eq_reading {text : String} {changes : List Change} {result : String} :
    applyAll text changes = .ok result ↔ Acceptable text.toList changes ∧
      result = String.ofList (reading changes 0 text.toList) := by
  rw [applyAll_eq_ok_iff]
  constructor
  · rintro ⟨h, rfl⟩
    exact ⟨h, by rw [h.substitute_eq]⟩
  · rintro ⟨h, rfl⟩
    exact ⟨h, by rw [h.substitute_eq]⟩

/-- Changing a text in place finds every span it replaces. The changes are accepted if they
fit and no two of them conflict, and then give the text as it is read, whatever the order of
the list, but for that of the insertions at one offset. -/
theorem applyAll_substitutes (text : String) (changes : List Change) :
    inPlace? text changes = some (applyAll text changes) ∧
      ((∃ result, applyAll text changes = .ok result) ↔
        (∀ c ∈ changes, c.span.Fits text.toList) ∧
          changes.Pairwise fun c d => ¬ c.span.Conflict d.span) ∧
      ∀ result, applyAll text changes = .ok result →
        result = String.ofList (reading changes 0 text.toList) ∧
          ∀ changes' : List Change, changes'.Perm changes →
            (∀ offset, insertionsAt changes' offset = insertionsAt changes offset) →
            applyAll text changes' = .ok result := by
  refine ⟨inPlace?_eq text changes, ⟨?_, ?_⟩, ?_⟩
  · rintro ⟨result, hresult⟩
    obtain ⟨h, _⟩ := applyAll_eq_reading.mp hresult
    exact ⟨h.fits, h.apart⟩
  · rintro ⟨hfits, hapart⟩
    exact ⟨_, applyAll_eq_reading.mpr ⟨⟨hfits, hapart⟩, rfl⟩⟩
  · intro result hresult
    obtain ⟨h, rfl⟩ := applyAll_eq_reading.mp hresult
    refine ⟨rfl, fun changes' hperm hinsertions => ?_⟩
    refine applyAll_eq_reading.mpr ⟨h.perm hperm, ?_⟩
    rw [reading_perm hperm h.apart hinsertions]

end Change
end Ripple
