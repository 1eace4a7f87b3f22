import Ripple.Diagnostic.Delta
import Ripple.Number
import Ripple.Record.Project

/-!
# Written diagnostics

A severity is written as its name; it is read as well from an object with that
name as its only field, of no value.
-/

namespace Ripple

open Data

namespace Severity

def toValue (s : Severity) : Value := .text s.name

def ofValue? : Value → Option Severity
  | .text name => ofName? name
  | .object [(name, .null)] => ofName? name
  | _ => none

end Severity

namespace Diagnostic

def fieldNames : List String :=
  ["rule_id", "severity", "message", "file", "line", "column", "project"]

/-- Lines and columns are below this. -/
def placeLimit : Nat := Number.halfLimit

def toValue (d : Diagnostic) : Value :=
  .object [
    ("rule_id", .text d.rule),
    ("severity", d.severity.toValue),
    ("message", .text d.message),
    ("file", d.file.toValue),
    ("line", .ofNat d.line),
    ("column", .ofNat d.column),
    ("project", d.project.toValue)]

def listToValue (ds : List Diagnostic) : Value := .list (ds.map toValue)

def ofValue? (form : Form) (v : Value) : Option Diagnostic := do
  let [rule, severity, message, file, line, column, project] ← v.record? form fieldNames | none
  some {
    rule := ← Value.required Value.asText? rule
    severity := ← Value.required Severity.ofValue? severity
    message := ← Value.required Value.asText? message
    file := ← Value.required Value.asPath? file
    line := ← Value.required (Value.asNat? placeLimit) line
    column := ← Value.required (Value.asNat? placeLimit) column
    project := ← Value.required ProjectId.ofValue? project }

end Diagnostic

namespace Delta

def fieldNames : List String := ["resolved", "introduced", "unchanged"]

def toValue (d : Delta) : Value :=
  .object [
    ("resolved", Diagnostic.listToValue d.resolved),
    ("introduced", Diagnostic.listToValue d.introduced),
    ("unchanged", Diagnostic.listToValue d.unchanged)]

def ofValue? (form : Form) (v : Value) : Option Delta := do
  let [resolved, introduced, unchanged] ← v.record? form fieldNames | none
  let read := Value.required (Value.asList? (Diagnostic.ofValue? form))
  some ⟨← read resolved, ← read introduced, ← read unchanged⟩

end Delta
end Ripple
