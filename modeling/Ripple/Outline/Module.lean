import Ripple.Backend
import Ripple.Outline.Document

/-!
# Outline modules

A project sees what its own clean documents define, what the modules it
compiles against export, and its metadata names; all that it sees it exports. A
second definition of a name and a use of a name that is not seen are reported.
-/

namespace Ripple
namespace Outline

structure Module where
  project : ProjectId
  documents : List Reading
  /-- In order, each name once. -/
  exports : List String
  diagnostics : List Diagnostic
  deriving DecidableEq, Repr, Inhabited

/-- Artifacts may also come from elsewhere; such an artifact exports nothing. -/
inductive Payload where
  | outline (m : Module)
  | foreign
  deriving DecidableEq, Repr, Inhabited

def Payload.module? : Payload → Option Module
  | .outline m => some m
  | .foreign => none

def Payload.exports (p : Payload) : List String :=
  p.module?.elim [] Module.exports

namespace Module

def unresolvedRule : String := "AR1002"

def duplicateRule : String := "AR1003"

def duplicateMessage (name : String) : String :=
  "\x60" ++ name ++ "\x60 is defined more than once"

def unresolvedMessage (name : String) : String :=
  "cannot find \x60" ++ name ++ "\x60 in scope"

def report (project : ProjectId) (rule : String) (severity : Severity)
    (message : String → String) (o : Occurrence) : Diagnostic :=
  ⟨rule, severity, message o.name, o.file, o.line, o.column, project⟩

/-- Duplicates are errors where the option `strict` is `true`. -/
def duplicateSeverity (options : Options) : Severity :=
  if options.get? "strict" = some "true" then .error else .warning

/-- The occurrences whose name occurs earlier in the list. -/
def repeated : List String → List Occurrence → List Occurrence
  | _, [] => []
  | seen, o :: os =>
      if o.name ∈ seen then o :: repeated seen os else repeated (o.name :: seen) os

/-- The occurrences whose name is not visible. -/
def unresolved (visible : List String) (uses : List Occurrence) : List Occurrence :=
  uses.filter fun o => o.name ∉ visible

def compile (u : CompileUnit Payload) : Module :=
  let documents := u.sources.map (Reading.ofDocument u.project)
  let clean := documents.filter Reading.isClean
  let definitions := clean.flatMap Reading.definitions
  let visible := AnalyzerSet.normalize
    (u.metadata ++ u.references.flatMap (fun a => a.payload.exports) ++
      definitions.map Occurrence.name)
  ⟨u.project, documents, visible,
    documents.flatMap Reading.syntaxErrors ++
      (repeated [] definitions).map
        (report u.project duplicateRule (duplicateSeverity u.options) duplicateMessage) ++
      (unresolved visible (clean.flatMap Reading.uses)).map
        (report u.project unresolvedRule .error unresolvedMessage)⟩

end Module
end Outline
end Ripple
