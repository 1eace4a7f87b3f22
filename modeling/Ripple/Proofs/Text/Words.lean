import Mathlib.Data.List.DropRight
import Ripple.Text.Blank

/-!
# The words of a text

A word is a stretch without blanks. The blanks before a word and after it are lost, and
a text that neither begins nor ends with a blank has two words if and only if it is the
one, some blanks and the other.
-/

namespace Ripple
namespace Text

def IsWord (w : List Char) : Prop :=
  w ≠ [] ∧ ∀ c ∈ w, isBlank c = false

/-- Blanks, and at least one of them. -/
def IsGap (gap : List Char) : Prop :=
  gap ≠ [] ∧ ∀ c ∈ gap, isBlank c

/-!
# Trimming
-/

/-- There is no blank at either end. -/
structure Trimmed (s : List Char) : Prop where
  first : ∀ c ∈ s.head?, isBlank c = false
  last : ∀ c ∈ s.getLast?, isBlank c = false

theorem head_trimStart {s : List Char} {c : Char} (h : c ∈ (trimStart s).head?) :
    isBlank c = false := by
  have hnot := List.head?_dropWhile_not isBlank s
  rw [trimStart, Option.mem_def] at h
  rw [h] at hnot
  exact hnot

theorem trimEnd_prefix (s : List Char) : trimEnd s <+: s :=
  List.rdropWhile_prefix isBlank s

theorem last_trimEnd {s : List Char} {c : Char} (h : c ∈ (trimEnd s).getLast?) :
    isBlank c = false := by
  rw [trimEnd, List.getLast?_reverse] at h
  exact head_trimStart h

theorem trimmed_trim (s : List Char) : Trimmed (trim s) := by
  constructor
  · intro c hc
    rcases trimEnd_prefix (trimStart s) with ⟨rest, hrest⟩
    apply head_trimStart (s := s)
    rw [← hrest, List.head?_append]
    rw [trim, Option.mem_def] at hc
    rw [hc]
    rfl
  · intro c hc
    exact last_trimEnd hc

theorem Trimmed.front_nil {gap s : List Char} (h : Trimmed (gap ++ s))
    (hgap : ∀ c ∈ gap, isBlank c) : gap = [] := by
  cases gap with
  | nil => rfl
  | cons c gap =>
      have hc := h.first c rfl
      rw [hgap c List.mem_cons_self] at hc
      cases hc

theorem Trimmed.back_nil {gap s : List Char} (h : Trimmed (s ++ gap))
    (hgap : ∀ c ∈ gap, isBlank c) : gap = [] := by
  rcases List.eq_nil_or_concat gap with rfl | ⟨gap, c, rfl⟩
  · rfl
  · have hc := h.last c (by simp)
    rw [hgap c (by simp)] at hc
    cases hc

/-!
# Splitting at blanks
-/

theorem words_blank_cons {c : Char} (hc : isBlank c) (s : List Char) :
    words (c :: s) = words s := by
  simp [words, List.splitOnP_cons_eq_if_modifyHead, hc]

/-- A word counts once it is over: at a blank, or at the end. -/
theorem words_word_append {w rest : List Char} (hw : IsWord w)
    (hrest : ∀ c ∈ rest.head?, isBlank c) : words (w ++ rest) = w :: words rest := by
  cases rest with
  | nil =>
      rw [List.append_nil, words, List.splitOnP_eq_singleton hw.2]
      simp [hw.1, words]
  | cons c rest =>
      have hc : isBlank c := hrest c rfl
      rw [words_blank_cons hc, words, List.splitOnP_append_cons_of_forall_mem hw.2 c hc]
      simp [words, hw.1]

theorem words_append_of_blank {gap : List Char} (hgap : ∀ c ∈ gap, isBlank c) (s : List Char) :
    words (gap ++ s) = words s := by
  induction gap with
  | nil => rfl
  | cons c gap ih =>
      rw [List.forall_mem_cons] at hgap
      rw [List.cons_append, words_blank_cons hgap.1, ih hgap.2]

theorem words_of_blank {s : List Char} (h : ∀ c ∈ s, isBlank c) : words s = [] := by
  have hnil := words_append_of_blank h []
  rw [List.append_nil] at hnil
  exact hnil

/-- The first word of a text, with the blanks before it and what comes after it. -/
theorem blank_or_exists_word (s : List Char) :
    (∀ c ∈ s, isBlank c) ∨ ∃ gap w rest, s = gap ++ (w ++ rest) ∧ (∀ c ∈ gap, isBlank c) ∧
      IsWord w ∧ ∀ c ∈ rest.head?, isBlank c := by
  cases hcore : trimStart s with
  | nil => exact .inl (List.dropWhile_eq_nil_iff.mp hcore)
  | cons c core =>
      have hc : isBlank c = false := head_trimStart (s := s) (by rw [hcore]; rfl)
      have hs : s = s.takeWhile isBlank ++ trimStart s := List.takeWhile_append_dropWhile.symm
      have hword : c :: core = (c :: core).takeWhile (!isBlank ·) ++
          (c :: core).dropWhile (!isBlank ·) := List.takeWhile_append_dropWhile.symm
      rw [hcore, hword] at hs
      refine .inr ⟨_, _, _, hs, fun d hd => List.mem_takeWhile_imp hd, ⟨?_, ?_⟩, ?_⟩
      · simp [hc]
      · intro d hd
        simpa using List.mem_takeWhile_imp hd
      · intro d hd
        have hnot := List.head?_dropWhile_not (!isBlank ·) (c :: core)
        rw [Option.mem_def.mp hd] at hnot
        simpa using hnot

theorem blank_of_words {s : List Char} (h : words s = []) : ∀ c ∈ s, isBlank c := by
  rcases blank_or_exists_word s with hblank | ⟨gap, w, rest, rfl, hgap, hw, hrest⟩
  · exact hblank
  · rw [words_append_of_blank hgap, words_word_append hw hrest] at h
    cases h

theorem exists_word {s w : List Char} {ws : List (List Char)} (h : words s = w :: ws) :
    ∃ gap rest, s = gap ++ (w ++ rest) ∧ (∀ c ∈ gap, isBlank c) ∧ IsWord w ∧
      (∀ c ∈ rest.head?, isBlank c) ∧ words rest = ws := by
  rcases blank_or_exists_word s with hblank | ⟨gap, v, rest, hs, hgap, hv, hrest⟩
  · rw [words_of_blank hblank] at h
    cases h
  · rw [hs, words_append_of_blank hgap, words_word_append hv hrest] at h
    rcases List.cons.inj h with ⟨rfl, hws⟩
    exact ⟨gap, rest, hs, hgap, hv, hrest, hws⟩

theorem words_eq_pair_iff {s : List Char} (hs : Trimmed s) {v w : List Char} :
    words s = [v, w] ↔ IsWord v ∧ IsWord w ∧ ∃ gap, IsGap gap ∧ s = v ++ (gap ++ w) := by
  constructor
  · intro h
    rcases exists_word h with ⟨front, rest, rfl, hfront, hv, hrest, hwords⟩
    rcases exists_word hwords with ⟨gap, back, rfl, hgap, hw, -, hnil⟩
    have hfrontNil : front = [] := hs.front_nil hfront
    have hback : back = [] := by
      rw [← List.append_assoc, ← List.append_assoc, ← List.append_assoc] at hs
      exact hs.back_nil (blank_of_words hnil)
    subst hfrontNil hback
    refine ⟨hv, hw, gap, ⟨?_, hgap⟩, by simp⟩
    -- Without a gap the second word would go on where the first one ends.
    rintro rfl
    cases w with
    | nil => exact hw.1 rfl
    | cons c w =>
        have hc := hrest c rfl
        rw [hw.2 c List.mem_cons_self] at hc
        cases hc
  · rintro ⟨hv, hw, gap, hgap, rfl⟩
    have hhead : ∀ c ∈ (gap ++ w).head?, isBlank c := by
      cases gap with
      | nil => exact (hgap.1 rfl).elim
      | cons c gap =>
          rintro d ⟨⟩
          exact hgap.2 c List.mem_cons_self
    have hword : words w = [w] := by
      have h := @words_word_append w [] hw (by simp)
      rw [List.append_nil] at h
      exact h
    rw [words_word_append hv hhead, words_append_of_blank hgap.2, hword]

end Text
end Ripple
