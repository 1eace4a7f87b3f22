import Mathlib.Data.List.Sort
import Ripple.Cache.Tables
import Ripple.Proofs.Fingerprint.Delimited
import Ripple.Proofs.Outline.Visibility
import Ripple.Proofs.Repetition

/-!
# Sets of analyzers and their keys

It is settled by its members what a set of analyzers is: in which order they are given, and
how often, does not show in it. The key of a set is the fingerprint of a stream that says
the names in order, so that no two sets are written alike.
-/

namespace Ripple
namespace AnalyzerSet

/-!
# Names in order
-/

theorem pairwise_normalize (names : List String) : (normalize names).Pairwise (· < ·) := by
  have hsorted : (names.mergeSort fun a b => decide (a ≤ b)).Pairwise fun a b => a ≤ b := by
    have htrans (a b c : String) (hab : decide (a ≤ b)) (hbc : decide (b ≤ c)) :
        decide (a ≤ c) :=
      decide_eq_true (String.le_trans (of_decide_eq_true hab) (of_decide_eq_true hbc))
    have htotal (a b : String) : decide (a ≤ b) || decide (b ≤ a) := by
      simpa using String.le_total a b
    exact (List.pairwise_mergeSort htrans htotal names).imp of_decide_eq_true
  have hordered : (normalize names).Pairwise fun a b => a ≤ b :=
    hsorted.sublist (eraseDups_sublist _)
  have hnodup : (normalize names).Pairwise fun a b => a ≠ b := Graph.nodup_eraseDups _
  exact hordered.imp₂ (fun a b hle hne =>
    String.not_le.mp fun hge => hne (String.le_antisymm hle hge)) hnodup

theorem fits_normalize {P : String → Prop} {names : List String} (h : ListFits P names) :
    ListFits P (normalize names) := by
  constructor
  · have hlength := (eraseDups_sublist (names.mergeSort fun a b => decide (a ≤ b))).length_le
    rw [List.length_mergeSort] at hlength
    exact Nat.lt_of_le_of_lt hlength h.left
  · intro n hn
    exact h.right n (mem_normalize.mp hn)

/-!
# What a set stands for
-/

/-- What the key of a set is the fingerprint of. -/
def stream (s : AnalyzerSet) : List UInt8 :=
  Stream.ofNames s.names

/-- The set has the names with the property, in increasing order, and the key of these. -/
structure Lists (s : AnalyzerSet) (P : String → Prop) : Prop where
  increasing : s.names.Pairwise (· < ·)
  mem_names : ∀ n, n ∈ s.names ↔ P n
  key : s.key = .ofStream s.stream

theorem lists_ofNames (names : List String) : (ofNames names).Lists (· ∈ names) where
  increasing := pairwise_normalize names
  mem_names _ := mem_normalize
  key := rfl

variable {s s' : AnalyzerSet} {P P' : String → Prop}

theorem Lists.congr (h : s.Lists P) (hsame : ∀ n, P n ↔ P' n) : s.Lists P' where
  increasing := h.increasing
  mem_names n := (h.mem_names n).trans (hsame n)
  key := h.key

/-- Only one set stands for given names. -/
theorem Lists.unique (h : s.Lists P) (h' : s'.Lists P) : s = s' := by
  have hnames : s.names = s'.names :=
    h.increasing.eq_of_mem_iff h'.increasing fun n => (h.mem_names n).trans (h'.mem_names n).symm
  have hkey : s.key = s'.key := by
    rw [h.key, h'.key, stream, stream, hnames]
  cases s
  cases s'
  simp_all

theorem Lists.eq_iff (h : s.Lists P) (h' : s'.Lists P') : s = s' ↔ ∀ n, P n ↔ P' n := by
  constructor
  · rintro rfl n
    exact (h.mem_names n).symm.trans (h'.mem_names n)
  · intro hsame
    exact (h.congr hsame).unique h'

/-- Sets that are written alike are the same. -/
theorem Lists.stream_eq_iff (h : s.Lists P) (h' : s'.Lists P') (hfits : ListFits TextFits s.names)
    (hfits' : ListFits TextFits s'.names) : s.stream = s'.stream ↔ s = s' := by
  constructor
  · intro hstream
    have hnames : s.names = s'.names :=
      (Stream.delimited_ofNames hfits hfits' (congrArg (· ++ []) hstream)).left
    apply (h.eq_iff h').mpr
    intro n
    rw [← h.mem_names, ← h'.mem_names, hnames]
  · rintro rfl
    rfl

end AnalyzerSet

/-!
# Choices
-/

namespace AnalyzerChoice

/-- The choice asks for the analyzer and does not disable it. Names that no analyzer has
are not asked for. -/
def Selects (c : AnalyzerChoice) (n : String) : Prop :=
  (c.useDefaults ∧ n ∈ Outline.Analyzer.defaults.map Outline.Analyzer.name ∨
    n ∈ Outline.Analyzer.all.map Outline.Analyzer.name ∧ n ∈ c.additional) ∧ n ∉ c.disabled

/-- The choices differ in the order and the repetition of names at most. -/
structure Alike (c c' : AnalyzerChoice) : Prop where
  useDefaults : c.useDefaults = c'.useDefaults
  additional : ∀ n, n ∈ c.additional ↔ n ∈ c'.additional
  disabled : ∀ n, n ∈ c.disabled ↔ n ∈ c'.disabled

theorem Alike.selects_iff {c c' : AnalyzerChoice} (h : c.Alike c') (n : String) :
    c.Selects n ↔ c'.Selects n := by
  simp only [Selects, h.useDefaults, h.additional, h.disabled]

end AnalyzerChoice

namespace Outline

theorem Analyzer.isSome_ofName?_iff {n : String} :
    (ofName? n).isSome ↔ n ∈ all.map name := by
  simp [ofName?, List.find?_isSome]

theorem lists_analyzersOf (c : AnalyzerChoice) : (analyzersOf c).Lists c.Selects := by
  refine (AnalyzerSet.lists_ofNames _).congr fun n => ?_
  have hdefaults : n ∈ (if c.useDefaults then Analyzer.defaults.map Analyzer.name else []) ↔
      c.useDefaults ∧ n ∈ Analyzer.defaults.map Analyzer.name := by
    split <;> simp_all
  rw [List.mem_filter, List.mem_append, List.mem_filter, hdefaults, Analyzer.isSome_ofName?_iff,
    decide_eq_true_iff, and_comm (a := n ∈ c.additional)]
  rfl

/-- A set of analyzers is settled by its members and so is what its key is taken of. The set
of a choice has the analyzers that it selects, and diagnostics are listed under the same key
for choices that differ in the order and the repetition of names only. -/
theorem analyzers_settled_by_members (names names' : List String) (c c' : AnalyzerChoice) :
    (AnalyzerSet.ofNames names).Lists (· ∈ names) ∧
    (AnalyzerSet.ofNames names = .ofNames names' ↔ ∀ n, n ∈ names ↔ n ∈ names') ∧
    (ListFits TextFits (AnalyzerSet.ofNames names).names →
      ListFits TextFits (AnalyzerSet.ofNames names').names →
      ((AnalyzerSet.ofNames names).stream = (AnalyzerSet.ofNames names').stream ↔
        AnalyzerSet.ofNames names = .ofNames names')) ∧
    (analyzersOf c).Lists c.Selects ∧
    (c.Alike c' → analyzersOf c = analyzersOf c' ∧ ∀ (slot : Cache.Slot) (analyzed : Bool),
      (⟨slot, (analyzersOf c).key, analyzed⟩ : Cache.ListingKey) =
        ⟨slot, (analyzersOf c').key, analyzed⟩) := by
  have hnames := AnalyzerSet.lists_ofNames names
  have hnames' := AnalyzerSet.lists_ofNames names'
  refine ⟨hnames, hnames.eq_iff hnames', hnames.stream_eq_iff hnames', lists_analyzersOf c, ?_⟩
  intro halike
  have hset : analyzersOf c = analyzersOf c' :=
    ((lists_analyzersOf c).eq_iff (lists_analyzersOf c')).mpr halike.selects_iff
  exact ⟨hset, fun slot analyzed => by rw [hset]⟩

/-- One choice, spelled in two ways, with a name that no analyzer has. -/
def spelledOnce : AnalyzerChoice :=
  ⟨true, ["empty-document", "spelling"], ["naming"]⟩

def spelledTwice : AnalyzerChoice :=
  ⟨true, ["spelling", "empty-document", "spelling"], ["naming", "naming"]⟩

theorem spelledOnce_alike : spelledOnce.Alike spelledTwice where
  useDefaults := rfl
  additional n := by
    simp only [spelledOnce, spelledTwice, List.mem_cons, List.not_mem_nil, or_false]
    tauto
  disabled n := by simp [spelledOnce, spelledTwice]

/-- A letter that moves from one name to the next makes another set. -/
theorem analyzers_settled_by_members_moved :
    ListFits TextFits (AnalyzerSet.ofNames ["bc", "a", "bc"]).names ∧
    ListFits TextFits (AnalyzerSet.ofNames ["ab", "c"]).names ∧
    (AnalyzerSet.ofNames ["bc", "a", "bc"]).stream ≠ (AnalyzerSet.ofNames ["ab", "c"]).stream ∧
    spelledOnce.Alike spelledTwice ∧ analyzersOf spelledOnce = analyzersOf spelledTwice ∧
    "empty-document" ∈ (analyzersOf spelledOnce).names ∧
    "naming" ∉ (analyzersOf spelledOnce).names := by
  have hfits {names : List String} (hlength : names.length < Number.wordLimit)
      (hshort : ∀ n ∈ names, TextFits n) : ListFits TextFits (AnalyzerSet.ofNames names).names :=
    AnalyzerSet.fits_normalize ⟨hlength, hshort⟩
  have hfirst : ListFits TextFits (AnalyzerSet.ofNames ["bc", "a", "bc"]).names :=
    hfits (by decide) (by unfold TextFits; decide)
  have hsecond : ListFits TextFits (AnalyzerSet.ofNames ["ab", "c"]).names :=
    hfits (by decide) (by unfold TextFits; decide)
  obtain ⟨_, hset, hstream, hlists, hkept⟩ :=
    analyzers_settled_by_members ["bc", "a", "bc"] ["ab", "c"] spelledOnce spelledTwice
  have hdiffers : ¬ ("a" ∈ ["bc", "a", "bc"] ↔ "a" ∈ ["ab", "c"]) := by decide
  obtain ⟨hsame, _⟩ := hkept spelledOnce_alike
  refine ⟨hfirst, hsecond, ?_, spelledOnce_alike, hsame, ?_, ?_⟩
  · intro heq
    exact hdiffers (hset.mp ((hstream hfirst hsecond).mp heq) "a")
  · exact (hlists.mem_names _).mpr ⟨.inr (by decide), by decide⟩
  · intro hmem
    exact absurd ((hlists.mem_names _).mp hmem).right (by decide)

end Outline
end Ripple
