import Ripple.Number

/-!
# Byte offsets

Positions in a text are counted in bytes of its UTF-8 form. A text can be cut
at an offset exactly when the offset is the byte length of one of its initial
parts.
-/

namespace Ripple
namespace Text

def byteLength (s : List Char) : Nat :=
  Number.total (s.map Char.utf8Size)

/-- The two parts of a text at a byte offset, if no character straddles it. -/
def cut : Nat → List Char → Option (List Char × List Char)
  | 0, s => some ([], s)
  | _ + 1, [] => none
  | n + 1, c :: s =>
      if c.utf8Size ≤ n + 1 then
        (cut (n + 1 - c.utf8Size) s).map fun parts => (c :: parts.1, parts.2)
      else none

@[simp] theorem byteLength_nil : byteLength [] = 0 := rfl

@[simp] theorem byteLength_cons (c : Char) (s : List Char) :
    byteLength (c :: s) = c.utf8Size + byteLength s := by
  simp [byteLength]

@[simp] theorem byteLength_append (s t : List Char) :
    byteLength (s ++ t) = byteLength s + byteLength t := by
  simp [byteLength]

/-- Cutting loses nothing, and the first part is as long as asked for. -/
theorem eq_append_of_cut {n : Nat} {s : List Char} {parts : List Char × List Char}
    (h : cut n s = some parts) :
    s = parts.1 ++ parts.2 ∧ byteLength parts.1 = n := by
  fun_induction cut n s generalizing parts with
  | case1 s =>
      cases h
      simp
  | case2 => cases h
  | case3 n c s hc ih =>
      obtain ⟨rest, hrest, rfl⟩ := Option.map_eq_some_iff.mp h
      obtain ⟨hs, hn⟩ := ih hrest
      refine ⟨by simp [hs], ?_⟩
      simp only [byteLength_cons, hn]
      omega
  | case4 => cases h

end Text
end Ripple
