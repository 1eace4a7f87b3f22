import Ripple.Edit.Change
import Ripple.Record.Project

/-!
# Written edits
-/

namespace Ripple

open Data

namespace Span

def fieldNames : List String := ["start", "length"]

def toValue (s : Span) : Value :=
  .object [("start", .ofNat s.start), ("length", .ofNat s.length)]

def ofValue? (form : Form) (v : Value) : Option Span := do
  let [start, length] ← v.record? form fieldNames | none
  let read := Value.required (Value.asNat? limit)
  some ⟨← read start, ← read length⟩

end Span

namespace Change

def fieldNames : List String := ["span", "new_text"]

def toValue (c : Change) : Value :=
  .object [("span", c.span.toValue), ("new_text", .text c.newText)]

def ofValue? (form : Form) (v : Value) : Option Change := do
  let [span, newText] ← v.record? form fieldNames | none
  some ⟨← Value.required (Span.ofValue? form) span, ← Value.required Value.asText? newText⟩

end Change

namespace DocumentEdit

def fieldNames : List String := ["file", "changes"]

def toValue (e : DocumentEdit) : Value :=
  .object [("file", e.file.toValue), ("changes", .list (e.changes.map Change.toValue))]

def ofValue? (form : Form) (v : Value) : Option DocumentEdit := do
  let [file, changes] ← v.record? form fieldNames | none
  some {
    file := ← Value.required Value.asPath? file
    changes := ← Value.required (Value.asList? (Change.ofValue? form)) changes }

end DocumentEdit
end Ripple
