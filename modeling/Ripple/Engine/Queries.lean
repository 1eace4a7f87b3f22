import Ripple.Engine.Basic

/-!
# Diagnostics and the shape of the graph
-/

namespace Ripple
namespace Engine

open Cache

variable {σ π : Type}

/-!
# Diagnostics

Pending edits have no part in them. One project is asked for alone, and then its
error is that of the operation; or all are, dependencies first, and errors are
reported one by one.
-/

structure ProjectDiagnostics where
  project : ProjectId
  diagnostics : List Diagnostic
  error : Option Error
  deriving DecidableEq, Repr

structure DiagnosticsReport where
  projects : List ProjectDiagnostics
  deriving DecidableEq, Repr

namespace DiagnosticsReport

def status (r : DiagnosticsReport) : Status :=
  let failed := r.projects.countP fun p => p.error.isSome
  .ofCounts (r.projects.length - failed) failed

def errorCount (r : DiagnosticsReport) : Nat :=
  (r.projects.flatMap ProjectDiagnostics.diagnostics).countP Diagnostic.isError

def project? (r : DiagnosticsReport) (id : ProjectId) : Option ProjectDiagnostics :=
  r.projects.find? fun p => p.project = id

end DiagnosticsReport

def projectDiagnostics (sv : Services σ π) (s : Session) (analyzed : Bool) (id : ProjectId) :
    Operation σ π (Except Error (Held (List Diagnostic))) :=
  Operation.perform sv (Plan.diagnostics sv.backend s.context id s.analyzers analyzed).run

def entryOf (id : ProjectId) : Except Error (Held (List Diagnostic)) → ProjectDiagnostics
  | .ok ds => ⟨id, ds.value, none⟩
  | .error e => ⟨id, [], some e⟩

/-- `analyze?` decides whether analyzers run; otherwise the configuration does. -/
def diagnostics (sv : Services σ π) (id : SessionId) (project? : Option ProjectId)
    (analyze? : Option Bool) : Operation σ π DiagnosticsReport := do
  let s ← Operation.use id
  let analyzed := analyze?.getD (← get).config.edits.includeAnalyzers
  match project? with
  | some p =>
      let ds ← Operation.ofExcept (← projectDiagnostics sv s analyzed p)
      pure ⟨[⟨p, ds.value, none⟩]⟩
  | none =>
      let entries ← s.graph.topologicalOrder.mapM fun p => do
        pure (entryOf p (← projectDiagnostics sv s analyzed p))
      pure ⟨entries⟩

/-!
# Invalidation
-/

/-- Drops what is cached for a project and all that depend on it. -/
def invalidateProject (id : SessionId) (p : ProjectId) : Operation σ π (List ProjectId) := do
  let s ← Operation.use id
  if !s.graph.contains p then Operation.fail (.projectNotFound p)
  Operation.updateTables fun t => t.invalidateDownstream id s.graph p
  pure (Tables.affectedBy s.graph p)

/-!
# The shape of the graph
-/

structure ProjectSummary where
  id : ProjectId
  name : String
  documents : Nat
  references : List ProjectId
  dependents : List ProjectId
  deriving DecidableEq, Repr

structure GraphSummary where
  projects : List ProjectSummary
  topologicalOrder : List ProjectId
  leaves : List ProjectId
  roots : List ProjectId
  cycles : List (List ProjectId)
  deriving DecidableEq, Repr

/-- A record for every project whose id is in the graph. -/
def GraphSummary.of (w : Workspace) (g : Graph) : GraphSummary where
  projects := (w.projects.filter fun p => g.contains p.id).map fun p =>
    ⟨p.id, p.name, p.documents.length, g.dependencies p.id, g.dependents p.id⟩
  topologicalOrder := g.topologicalOrder
  leaves := g.leaves
  roots := g.roots
  cycles := g.cycles

def graphSummary (id : SessionId) : Operation σ π GraphSummary := do
  let s ← Operation.use id
  pure (.of s.workspace s.graph)

end Engine
end Ripple
