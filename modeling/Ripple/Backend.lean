import Ripple.AnalyzerSet
import Ripple.Diagnostic

/-!
# Backends

A backend compiles projects. What its artifacts hold is its own business, so
everything here is for any type of payload. Source text that does not parse is
no failure: it compiles to an artifact with diagnostics.
-/

namespace Ripple

structure Artifact (π : Type) where
  project : ProjectId
  payload : π
  deriving DecidableEq, Repr, Inhabited

/-- All that a compile of one project is given. -/
structure CompileUnit (π : Type) where
  project : ProjectId
  sources : List Document
  /-- The artifacts of the projects it compiles against, in order. -/
  references : List (Artifact π)
  metadata : List String
  options : Options
  deriving Repr, Inhabited

def CompileUnit.ofProject (p : Project) (references : List (Artifact π)) : CompileUnit π :=
  ⟨p.id, p.documents, references, p.metadata, p.options⟩

inductive CompileResult (π : Type) where
  | compiled (a : Artifact π)
  | failed (cause : String)
  | panicked
  deriving Repr, Inhabited

structure Backend (π : Type) where
  name : String
  /-- What compiles depend on beside their units. -/
  environment : String
  compile : CompileUnit π → CompileResult π
  diagnostics : Artifact π → List Diagnostic
  analyze : Artifact π → AnalyzerSet → Except String (List Diagnostic)

end Ripple
