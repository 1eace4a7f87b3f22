import Ripple.Diagnostic.Delta
import Ripple.Engine.Basic
import Ripple.Session.Commit

/-!
# Edits, their impact and their commit

A batch of edits is staged one edit after the other; an edit that is refused
does not stop the rest. The impact of all pending texts is then worked out for
every project downstream of an edited one. A commit writes the pending texts and
folds what was written into the session.
-/

namespace Ripple
namespace Engine

open Cache

variable {σ π : Type}

structure EditResult where
  file : Path
  project : Option ProjectId
  error : Option Error
  deriving DecidableEq, Repr

/-- What the pending texts do to the diagnostics of a project. -/
structure Impact where
  project : ProjectId
  delta : Delta
  hasErrors : Bool
  error : Option Error
  deriving DecidableEq, Repr

structure EditOutcome where
  edits : List EditResult
  /-- Dependencies before dependents. -/
  impacts : List Impact
  deriving DecidableEq, Repr

namespace EditOutcome

def hasErrors (o : EditOutcome) : Bool :=
  o.impacts.any Impact.hasErrors

def status (o : EditOutcome) : Status :=
  let failed := o.edits.countP fun r => r.error.isSome
  .ofCounts (o.edits.length - failed) failed

def impact? (o : EditOutcome) (id : ProjectId) : Option Impact :=
  o.impacts.find? fun i => i.project = id

end EditOutcome

/-!
# Staging
-/

/-- Stages edits in order, all against one workspace. -/
def stageAll (w : Workspace) : List DocumentEdit → Session → List EditResult × Session
  | [], s => ([], s)
  | edit :: rest, s =>
      match s.stageEdit w edit with
      | .ok (id, s) =>
          let (results, s) := stageAll w rest s
          (⟨edit.file, some id, none⟩ :: results, s)
      | .error e =>
          let (results, s) := stageAll w rest s
          (⟨edit.file, none, some e⟩ :: results, s)

/-!
# Impact
-/

def impactOf (id : ProjectId) :
    Except Error (Held (List Diagnostic)) → Except Error (List Diagnostic) → Impact
  | .ok before, .ok after =>
      ⟨id, .compute before.value after, after.any Diagnostic.isError, none⟩
  | .error e, _ => ⟨id, .empty, false, some e⟩
  | .ok _, .error e => ⟨id, .empty, false, some e⟩

/-- Compares a project as it is with what it would be under overrides. -/
def impactPlan (b : Backend π) (ctx : Context) (overrides : Overrides) (s : AnalyzerSet)
    (analyzed : Bool) (id : ProjectId) : Plan π Impact := do
  let before ← (Plan.diagnostics b ctx id s analyzed).run
  let after ← (Plan.speculativeDiagnostics b ctx id overrides s analyzed).run
  pure (impactOf id before after)

/-- The projects downstream of edited ones, dependencies first. -/
def affected (g : Graph) (edited : List ProjectId) : List ProjectId :=
  let below := edited.flatMap g.withDependents
  g.topologicalOrder.filter fun id => id ∈ below

/-- Enough turns for plans that request every project and every reference. -/
def turns (g : Graph) : Nat :=
  g.projectCount + g.referenceCount + 2

def impacts (sv : Services σ π) (s : Session) (edited : List ProjectId) :
    Operation σ π (List Impact) := do
  let analyzed := (← get).config.edits.includeAnalyzers
  Operation.performAll sv (turns s.graph)
    ((affected s.graph edited).map
      (impactPlan sv.backend s.context s.overrides s.analyzers analyzed))

def applyEdits (sv : Services σ π) (id : SessionId) (edits : List DocumentEdit) :
    Operation σ π EditOutcome := do
  if edits.isEmpty then Operation.fail .emptyBatch
  let s ← Operation.use id
  let (results, s) := stageAll s.workspace edits s
  Operation.setSession s
  let found ← impacts sv s (results.filterMap EditResult.project)
  pure ⟨results, found⟩

/-- Applies one edit; its own refusal is then that of the operation. -/
def applyEdit (sv : Services σ π) (id : SessionId) (edit : DocumentEdit) :
    Operation σ π EditOutcome := do
  let outcome ← applyEdits sv id [edit]
  match outcome.edits.head?.bind EditResult.error with
  | some e => Operation.fail e
  | none => pure outcome

/-!
# Commit and rollback
-/

/-- Adds the ids that are not there yet. -/
def addNew (known more : List ProjectId) : List ProjectId :=
  more.foldl (fun known id => if id ∈ known then known else known ++ [id]) known

/-- Writes one pending text and folds it into the session. -/
def commitEdit (sv : Services σ π) (id : SessionId) (report : CommitReport) (edit : PendingEdit) :
    Operation σ π CommitReport := do
  match ← Operation.writeText sv edit.path edit.text with
  | .error e =>
      pure { report with
        failed := report.failed ++ [⟨edit.path, .writeFailed edit.path e.message⟩] }
  | .ok () =>
      let s ← Operation.find id
      let s := (s.clearPendingIf edit.path edit.text).getD s
      let s := ((s.updateDocument edit.path edit.text).map Prod.snd).getD s
      Operation.setSession s
      Operation.updateTables fun t => t.invalidateDownstream id s.graph edit.project
      pure { report with
        written := report.written ++ [edit.path]
        invalidated := addNew report.invalidated (Tables.affectedBy s.graph edit.project) }

def commit (sv : Services σ π) (id : SessionId) : Operation σ π CommitReport := do
  let s ← Operation.use id
  let report ← s.pendingEdits.foldlM (commitEdit sv id) .empty
  let s ← Operation.find id
  if s.pending.size = 0 && !report.written.isEmpty then
    Operation.setSession { s with phase := .committed }
  pure report

/-- Discards every pending edit and says how many there were. -/
def rollback (id : SessionId) : Operation σ π Nat := do
  let s ← Operation.use id
  Operation.setSession { s.discardPending with phase := .rolledBack }
  pure s.pending.size

def pendingEdits (id : SessionId) : Operation σ π (List PendingEdit) := do
  pure (← Operation.use id).pendingEdits

end Engine
end Ripple
