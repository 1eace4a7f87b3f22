import Ripple.Edit.Span
import Ripple.Path
import Ripple.Text.Offset

/-!
# Changes of a text

A change replaces a span by a new text. A list of changes is carried out at
once: every span refers to the text as it was, no two spans may conflict, and
insertions at one offset come in the order of the list, before what replaces a
span that starts there.
-/

namespace Ripple

structure Change where
  span : Span
  newText : String
  deriving DecidableEq, Repr, Inhabited

/-- Changes of the document at a path. -/
structure DocumentEdit where
  file : Path
  changes : List Change
  deriving DecidableEq, Repr, Inhabited

/-!
# Refusals
-/

inductive ChangeError where
  | overflow (span : Span)
  | outOfBounds (span : Span) (size : Nat)
  | offBoundary (span : Span)
  | overlap (first second : Span)
  deriving DecidableEq, Repr

namespace ChangeError

def range (s : Span) : String :=
  toString s.start ++ ".." ++ toString s.stop

def message : ChangeError → String
  | .overflow s =>
      "span starting at " ++ toString s.start ++ " with length " ++ toString s.length ++
        " overflows"
  | .outOfBounds s size =>
      "span " ++ range s ++ " is out of bounds for a document of " ++ toString size ++ " bytes"
  | .offBoundary s => "span " ++ range s ++ " does not fall on character boundaries"
  | .overlap s t => "spans " ++ range s ++ " and " ++ range t ++ " overlap"

end ChangeError

namespace Change

/-- What is wrong with a span in a text, if anything is. -/
def fault? (text : List Char) (s : Span) : Option ChangeError :=
  match s.stop? with
  | none => some (.overflow s)
  | some stop =>
      if Text.byteLength text < stop then some (.outOfBounds s (Text.byteLength text))
      else if (Text.cut s.start text).isNone || (Text.cut stop text).isNone then
        some (.offBoundary s)
      else none

/-- The first two neighbours of a list that conflict. -/
def conflict? : List Change → Option ChangeError
  | c :: d :: rest =>
      if c.span.conflicts d.span then some (.overlap c.span d.span) else conflict? (d :: rest)
  | _ => none

/-- By span; changes with one span stay in the order of the list. -/
def ordered (changes : List Change) : List Change :=
  changes.mergeSort fun c d => c.span.le d.span

/-!
# Carrying changes out
-/

/-- Carries ordered changes out on what follows an offset of a text. -/
def substitute : Nat → List Char → List Change → List Char
  | _, rest, [] => rest
  | offset, rest, c :: cs =>
      let parts := (Text.cut (c.span.start - offset) rest).getD (rest, [])
      let after := (Text.cut c.span.length parts.2).getD (parts.2, [])
      parts.1 ++ c.newText.toList ++ substitute c.span.stop after.2 cs

def applyAll (text : String) (changes : List Change) : Except ChangeError String :=
  match changes.findSome? fun c => fault? text.toList c.span with
  | some e => .error e
  | none =>
      let inOrder := ordered changes
      match conflict? inOrder with
      | some e => .error e
      | none => .ok (String.ofList (substitute 0 text.toList inOrder))

end Change
end Ripple
