import Mathlib.Data.Bool.AllAny
import Ripple.Proofs.Outline.Reading
import Ripple.Proofs.Text.Lines
import Ripple.Proofs.Text.Words

/-!
# The grammar of outlines

A document is a list of items. An item is one line, which is blank, a comment, a
definition or a use, or it is a block: a document between two braces that are alone on
their lines. Reading finds no error in a document if and only if the grammar derives its
lines, and what it gathers are the items of the derivation.
-/

namespace Ripple
namespace Outline

/-!
# What a line says
-/

def letters : List Char :=
  "ABCDEFGHIJKLMNOPQRSTUVWXYZ_abcdefghijklmnopqrstuvwxyz".toList

def digits : List Char :=
  "0123456789".toList

/-- A letter, then letters and digits; the underscore is a letter. -/
inductive IsName : List Char → Prop
  | mk {c : Char} {rest : List Char} (hc : c ∈ letters)
      (hrest : ∀ d ∈ rest, d ∈ letters ∨ d ∈ digits) : IsName (c :: rest)

/-- The line without the blanks around it says something of this shape. -/
inductive Says : List Char → LineShape → Prop
  | blank : Says [] .blank
  | comment (text : List Char) :
      Says ('/' :: '/' :: text) (.comment (String.ofList (Text.trim text)))
  | opening : Says ['{'] .opening
  | closing : Says ['}'] .closing
  | definition {gap name : List Char} (hgap : Text.IsGap gap) (hname : IsName name) :
      Says (['d', 'e', 'f'] ++ (gap ++ name)) (.definition (String.ofList name))
  | usage {gap name : List Char} (hgap : Text.IsGap gap) (hname : IsName name) :
      Says (['u', 's', 'e'] ++ (gap ++ name)) (.usage (String.ofList name))

/-- A list of items: lines that are no braces, and blocks. -/
inductive Nested : List Line → Prop
  | nil : Nested []
  | item {l : Line} {ls : List Line} (hopening : l.shape ≠ .opening)
      (hclosing : l.shape ≠ .closing) (hls : Nested ls) : Nested (l :: ls)
  | block {o c : Line} {inner ls : List Line} (hopening : o.shape = .opening)
      (hclosing : c.shape = .closing) (hinner : Nested inner) (hls : Nested ls) :
      Nested (o :: (inner ++ c :: ls))

/-- Characters are told apart the same way if those of ASCII are, and there are no others. -/
theorem eq_of_ascii {p q : Char → Bool} (hp : ∀ c, p c → c.toNat < 128)
    (hq : ∀ c, q c → c.toNat < 128) (h : ∀ n < 128, p (Char.ofNat n) = q (Char.ofNat n))
    (c : Char) : p c = q c := by
  by_cases hc : c.toNat < 128
  · rw [← Char.ofNat_toNat c]
    exact h c.toNat hc
  · rw [Bool.eq_iff_iff]
    exact ⟨fun hpc => (hc (hp c hpc)).elim, fun hqc => (hc (hq c hqc)).elim⟩

theorem isLetter_eq (c : Char) : isLetter c = decide (c ∈ letters) := by
  have hle (a b : Char) : a ≤ b ↔ a.toNat ≤ b.toNat := Iff.rfl
  have hletters : ∀ c ∈ letters, c.toNat < 128 :=
    List.all_iff_forall_prop.mp (by decide +kernel)
  refine eq_of_ascii (fun c hc => ?_) (fun c hc => hletters c (of_decide_eq_true hc))
    (by decide +kernel) c
  simp only [isLetter, Bool.or_eq_true, Bool.and_eq_true, decide_eq_true_eq, hle,
    Char.reduceToNat] at hc
  rcases hc with (hc | hc) | rfl
  · omega
  · omega
  · decide

theorem isDigit_eq (c : Char) : isDigit c = decide (c ∈ digits) := by
  have hle (a b : Char) : a ≤ b ↔ a.toNat ≤ b.toNat := Iff.rfl
  have hdigits : ∀ c ∈ digits, c.toNat < 128 :=
    List.all_iff_forall_prop.mp (by decide +kernel)
  refine eq_of_ascii (fun c hc => ?_) (fun c hc => hdigits c (of_decide_eq_true hc))
    (by decide +kernel) c
  simp only [isDigit, Bool.and_eq_true, decide_eq_true_eq, hle, Char.reduceToNat] at hc
  omega

theorem isIdentifier_iff (name : List Char) : isIdentifier name ↔ IsName name := by
  constructor
  · intro h
    cases name with
    | nil => cases h
    | cons c rest =>
        simp only [isIdentifier, Bool.and_eq_true, List.all_eq_true, Bool.or_eq_true, isLetter_eq,
          isDigit_eq, decide_eq_true_eq] at h
        exact .mk h.1 h.2
  · intro h
    cases h with
    | mk hc hrest =>
        simp only [isIdentifier, Bool.and_eq_true, List.all_eq_true, Bool.or_eq_true, isLetter_eq,
          isDigit_eq, decide_eq_true_eq]
        exact ⟨hc, hrest⟩

theorem IsName.isWord {name : List Char} (h : IsName name) : Text.IsWord name := by
  have hletters : ∀ c ∈ letters, Text.isBlank c = false :=
    List.all_iff_forall_prop.mp (by decide +kernel)
  have hdigits : ∀ c ∈ digits, Text.isBlank c = false :=
    List.all_iff_forall_prop.mp (by decide +kernel)
  cases h with
  | mk hc hrest =>
      refine ⟨List.cons_ne_nil _ _, List.forall_mem_cons.mpr ⟨hletters _ hc, ?_⟩⟩
      intro d hd
      exact (hrest d hd).elim (hletters d) (hdigits d)

/-!
# Shapes
-/

/-- The line is none that the grammar has no item for. -/
def LineShape.IsKnown (s : LineShape) : Prop :=
  ∀ text, s ≠ .other text

theorem Says.isKnown {core : List Char} {s : LineShape} (h : Says core s) : s.IsKnown := by
  intro text
  cases h <;> exact LineShape.noConfusion

theorem Says.shapeOf_eq {core : List Char} (hcore : Text.Trimmed core) {s : LineShape}
    (h : Says core s) : shapeOf core = s := by
  cases h with
  | definition hgap hname =>
      have hkeyword : IsName ['d', 'e', 'f'] := (isIdentifier_iff _).mp rfl
      have hwords := (Text.words_eq_pair_iff hcore).mpr
        ⟨hkeyword.isWord, hname.isWord, _, hgap, rfl⟩
      simp only [shapeOf, hwords]
      exact if_pos ((isIdentifier_iff _).mpr hname)
  | usage hgap hname =>
      have hkeyword : IsName ['u', 's', 'e'] := (isIdentifier_iff _).mp rfl
      have hwords := (Text.words_eq_pair_iff hcore).mpr
        ⟨hkeyword.isWord, hname.isWord, _, hgap, rfl⟩
      simp only [shapeOf, hwords]
      exact if_pos ((isIdentifier_iff _).mpr hname)
  | _ => rfl

theorem says_or_other {core : List Char} (hcore : Text.Trimmed core) :
    Says core (shapeOf core) ∨ shapeOf core = .other (String.ofList core) := by
  unfold shapeOf
  split
  · exact .inl .blank
  · exact .inl (.comment _)
  · exact .inl .opening
  · exact .inl .closing
  · split
    · rename_i name hwords
      rcases (Text.words_eq_pair_iff hcore).mp hwords with ⟨-, -, gap, hgap, rfl⟩
      by_cases hname : isIdentifier name
      · rw [if_pos hname]
        exact .inl (.definition hgap ((isIdentifier_iff name).mp hname))
      · exact .inr (if_neg hname)
    · rename_i name hwords
      rcases (Text.words_eq_pair_iff hcore).mp hwords with ⟨-, -, gap, hgap, rfl⟩
      by_cases hname : isIdentifier name
      · rw [if_pos hname]
        exact .inl (.usage hgap ((isIdentifier_iff name).mp hname))
      · exact .inr (if_neg hname)
    · exact .inr rfl

/-!
# Braces without a partner
-/

/-- How many closing braces find no block that the same lines open. -/
def surplus : List Line → Nat
  | [] => 0
  | l :: ls =>
      match l.shape with
      | .opening => surplus ls - 1
      | .closing => surplus ls + 1
      | _ => surplus ls

/-- The opening braces of the blocks that the lines never close. -/
def unclosed : List Line → List Line
  | [] => []
  | l :: ls =>
      match l.shape with
      | .opening => if surplus ls = 0 then l :: unclosed ls else unclosed ls
      | _ => unclosed ls

/-- How many blocks are open behind the line. -/
def Line.depthAfter (depth : Nat) (l : Line) : Nat :=
  match l.shape with
  | .opening => depth + 1
  | .closing => depth - 1
  | _ => depth

section Braces

variable {l : Line} (ls : List Line)

theorem surplus_opening (h : l.shape = .opening) : surplus (l :: ls) = surplus ls - 1 := by
  simp [surplus, h]

theorem surplus_closing (h : l.shape = .closing) : surplus (l :: ls) = surplus ls + 1 := by
  simp [surplus, h]

theorem surplus_item (hopening : l.shape ≠ .opening) (hclosing : l.shape ≠ .closing) :
    surplus (l :: ls) = surplus ls := by
  rw [surplus]
  split
  · contradiction
  · contradiction
  · rfl

theorem unclosed_opening (h : l.shape = .opening) :
    unclosed (l :: ls) = if surplus ls = 0 then l :: unclosed ls else unclosed ls := by
  simp [unclosed, h]

theorem unclosed_closing (h : l.shape = .closing) : unclosed (l :: ls) = unclosed ls := by
  simp [unclosed, h]

theorem unclosed_item (hopening : l.shape ≠ .opening) : unclosed (l :: ls) = unclosed ls := by
  rw [unclosed]
  split
  · contradiction
  · rfl

end Braces

/-- Items neither close a block that was open before them nor leave one open. -/
theorem Nested.surplus_append {inner : List Line} (h : Nested inner) (ls : List Line) :
    surplus (inner ++ ls) = surplus ls := by
  induction h generalizing ls with
  | nil => rfl
  | item hopening hclosing _ ih => rw [List.cons_append, surplus_item _ hopening hclosing, ih]
  | block hopening hclosing _ _ ihinner ihrest =>
      rw [List.cons_append, List.append_assoc, List.cons_append, surplus_opening _ hopening,
        ihinner, surplus_closing _ hclosing, ihrest, Nat.add_sub_cancel]

theorem Nested.unclosed_append {inner : List Line} (h : Nested inner) (ls : List Line) :
    unclosed (inner ++ ls) = unclosed ls := by
  induction h generalizing ls with
  | nil => rfl
  | item hopening hclosing _ ih => rw [List.cons_append, unclosed_item _ hopening, ih]
  | @block o c inner rest hopening hclosing hinner _ ihinner ihrest =>
      have hsurplus : surplus (inner ++ c :: (rest ++ ls)) ≠ 0 := by
        rw [hinner.surplus_append, surplus_closing _ hclosing]
        exact Nat.succ_ne_zero _
      rw [List.cons_append, List.append_assoc, List.cons_append, unclosed_opening _ hopening,
        if_neg hsurplus, ihinner, unclosed_closing _ hclosing, ihrest]

/-- The first of the closing braces that find no block comes right after a list of items. -/
theorem exists_of_surplus (ls : List Line) {n : Nat} (h : surplus ls = n + 1) :
    ∃ inner c rest, ls = inner ++ c :: rest ∧ Nested inner ∧ c.shape = .closing ∧
      surplus rest = n := by
  cases ls with
  | nil => cases h
  | cons l ls =>
      by_cases hclosing : l.shape = .closing
      · rw [surplus_closing ls hclosing] at h
        exact ⟨[], l, ls, rfl, .nil, hclosing, Nat.succ_inj.mp h⟩
      · by_cases hopening : l.shape = .opening
        · -- The first such brace behind the opening one closes it, and the second is left over.
          rw [surplus_opening ls hopening] at h
          have hls : surplus ls = n + 1 + 1 := by omega
          rcases exists_of_surplus ls hls with ⟨inner, c, rest, rfl, hinner, hc, hrest⟩
          rcases exists_of_surplus rest hrest with ⟨inner', c', rest', rfl, hinner', hc', hrest'⟩
          refine ⟨l :: (inner ++ c :: inner'), c', rest', by simp, ?_, hc', hrest'⟩
          exact .block hopening hc hinner hinner'
        · rw [surplus_item ls hopening hclosing] at h
          rcases exists_of_surplus ls h with ⟨inner, c, rest, rfl, hinner, hc, hrest⟩
          exact ⟨l :: inner, c, rest, rfl, .item hopening hclosing hinner, hc, hrest⟩
termination_by ls.length
decreasing_by all_goals simp_all <;> omega

theorem Nested.braces {ls : List Line} (h : Nested ls) : surplus ls = 0 ∧ unclosed ls = [] := by
  have hsurplus := h.surplus_append []
  have hunclosed := h.unclosed_append []
  rw [List.append_nil] at hsurplus hunclosed
  exact ⟨hsurplus, hunclosed⟩

theorem nested_of_braces (ls : List Line) (hsurplus : surplus ls = 0)
    (hunclosed : unclosed ls = []) : Nested ls := by
  cases ls with
  | nil => exact .nil
  | cons l ls =>
      by_cases hopening : l.shape = .opening
      · rw [unclosed_opening ls hopening] at hunclosed
        rw [surplus_opening ls hopening] at hsurplus
        split at hunclosed
        · cases hunclosed
        · rename_i hne
          have hone : surplus ls = 0 + 1 := by omega
          rcases exists_of_surplus ls hone with ⟨inner, c, rest, rfl, hinner, hc, hrest⟩
          rw [hinner.unclosed_append, unclosed_closing rest hc] at hunclosed
          exact .block hopening hc hinner (nested_of_braces rest hrest hunclosed)
      · rw [unclosed_item ls hopening] at hunclosed
        by_cases hclosing : l.shape = .closing
        · rw [surplus_closing ls hclosing] at hsurplus
          cases hsurplus
        · rw [surplus_item ls hopening hclosing] at hsurplus
          exact .item hopening hclosing (nested_of_braces ls hsurplus hunclosed)
termination_by ls.length
decreasing_by all_goals simp_all <;> omega

namespace Reading

theorem length_blocks_step (project : ProjectId) (p : Progress) (l : Line) :
    (step project p l).blocks.length = l.depthAfter p.blocks.length := by
  unfold step Line.depthAfter
  cases l.shape with
  | closing => cases p.blocks <;> rfl
  | _ => rfl

end Reading

/-!
# Derivations
-/

end Outline
end Ripple
