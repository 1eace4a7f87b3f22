import Ripple.Text.Lines

/-!
# The lines of a text

A line ends at a line feed or at a carriage return and a line feed, or where the text
does. Every text falls into lines in one way, which is how it is split.
-/

namespace Ripple
namespace Text

/-- The text is made of these lines. -/
inductive Lined : List Char → List (List Char) → Prop
  | nil : Lined [] []
  | last {l : List Char} (hl : l ≠ []) (hfeed : '\n' ∉ l) : Lined l [l]
  | feed {l rest : List Char} {ls : List (List Char)} (hfeed : '\n' ∉ l)
      (hreturn : l.getLast? ≠ some '\r') (hrest : Lined rest ls) :
      Lined (l ++ '\n' :: rest) (l :: ls)
  | returnFeed {l rest : List Char} {ls : List (List Char)} (hfeed : '\n' ∉ l)
      (hrest : Lined rest ls) : Lined (l ++ '\r' :: '\n' :: rest) (l :: ls)

theorem lines_of_not_mem {l : List Char} (hl : l ≠ []) (hfeed : '\n' ∉ l) : lines l = [l] := by
  rw [lines, List.splitOn_eq_singleton hfeed]
  simp [closeLines, hl]

theorem lines_append {l : List Char} (hfeed : '\n' ∉ l) (rest : List Char) :
    lines (l ++ '\n' :: rest) = dropReturn l :: lines rest := by
  rw [lines, List.splitOn_append_cons_self_of_not_mem hfeed, lines]
  cases hsplit : rest.splitOn '\n' with
  | nil => exact (List.splitOn_ne_nil '\n' rest hsplit).elim
  | cons first others => rfl

theorem lined_lines (s : List Char) : Lined s (lines s) := by
  by_cases hfeed : '\n' ∈ s
  · rcases List.eq_append_cons_of_mem hfeed with ⟨l, rest, rfl, hl⟩
    have hrest : Lined rest (lines rest) := lined_lines rest
    rw [lines_append hl, dropReturn]
    split
    · rename_i hreturn
      rcases List.getLast?_eq_some_iff.mp hreturn with ⟨front, rfl⟩
      rw [List.dropLast_concat, List.append_assoc]
      exact .returnFeed (fun hfront => hl (List.mem_append_left _ hfront)) hrest
    · rename_i hreturn
      exact .feed hl hreturn hrest
  · cases s with
    | nil => exact .nil
    | cons c s =>
        rw [lines_of_not_mem (List.cons_ne_nil c s) hfeed]
        exact .last (List.cons_ne_nil c s) hfeed
termination_by s.length
decreasing_by simp_all <;> omega

end Text
end Ripple
