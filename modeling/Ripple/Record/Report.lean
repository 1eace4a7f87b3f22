import Ripple.Engine.Edits
import Ripple.Engine.Queries
import Ripple.Record.Diagnostic
import Ripple.Record.Error

/-!
# Written reports

Reports are written with their fields in the order of their declaration. What
may be missing is written as `null`.
-/

namespace Ripple

open Data Engine

def Error.optionToValue (e : Option Error) : Value :=
  .ofOption Error.toValue e

namespace CommitReport

def toValue (r : CommitReport) : Value :=
  .object [
    ("written", .list (r.written.map Path.toValue)),
    ("failed", .list (r.failed.map fun f =>
      .object [("path", f.path.toValue), ("error", f.error.toValue)])),
    ("invalidated", ProjectId.listToValue r.invalidated)]

end CommitReport

namespace Engine

def EditResult.toValue (r : EditResult) : Value :=
  .object [
    ("file", r.file.toValue),
    ("project", .ofOption ProjectId.toValue r.project),
    ("error", Error.optionToValue r.error)]

def Impact.toValue (i : Impact) : Value :=
  .object [
    ("project", i.project.toValue),
    ("delta", i.delta.toValue),
    ("has_errors", .ofBool i.hasErrors),
    ("error", Error.optionToValue i.error)]

def EditOutcome.toValue (o : EditOutcome) : Value :=
  .object [
    ("edits", .list (o.edits.map EditResult.toValue)),
    ("projects", .list (o.impacts.map Impact.toValue)),
    ("has_errors", .ofBool o.hasErrors)]

def ProjectDiagnostics.toValue (p : ProjectDiagnostics) : Value :=
  .object [
    ("project", p.project.toValue),
    ("diagnostics", Diagnostic.listToValue p.diagnostics),
    ("error", Error.optionToValue p.error)]

def DiagnosticsReport.toValue (r : DiagnosticsReport) : Value :=
  .object [("projects", .list (r.projects.map ProjectDiagnostics.toValue))]

def ProjectSummary.toValue (p : ProjectSummary) : Value :=
  .object [
    ("id", p.id.toValue),
    ("name", .text p.name),
    ("documents", .ofNat p.documents),
    ("references", ProjectId.listToValue p.references),
    ("dependents", ProjectId.listToValue p.dependents)]

def GraphSummary.toValue (g : GraphSummary) : Value :=
  .object [
    ("projects", .list (g.projects.map ProjectSummary.toValue)),
    ("topological_order", ProjectId.listToValue g.topologicalOrder),
    ("leaves", ProjectId.listToValue g.leaves),
    ("roots", ProjectId.listToValue g.roots),
    ("cycles", .list (g.cycles.map ProjectId.listToValue))]

end Engine

/-!
# Names of states
-/

def Phase.name : Phase → String
  | .clean => "clean"
  | .staged => "staged"
  | .committed => "committed"
  | .rolledBack => "rolled_back"

def Source.name : Source → String
  | .workspace => "workspace"
  | .project => "project"

end Ripple
