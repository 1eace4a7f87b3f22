import Ripple.Outline.Analyzers

/-!
# Backends with faults

A backend whose compiles of chosen projects fail, panic, or give an artifact
that the outline backend does not know. It shows what the rest makes of faults.
-/

namespace Ripple
namespace Outline

structure Faults where
  failing : List ProjectId
  panicking : List ProjectId
  foreign : List ProjectId
  deriving Repr, Inhabited

def Faults.none : Faults := ⟨[], [], []⟩

def injectedFailure (id : ProjectId) : String :=
  "Injected compile failure for " ++ id.text

def compileWithFaults (f : Faults) (u : CompileUnit Payload) : CompileResult Payload :=
  if u.project ∈ f.panicking then .panicked
  else if u.project ∈ f.failing then .failed (injectedFailure u.project)
  else if u.project ∈ f.foreign then .compiled ⟨u.project, .foreign⟩
  else backend.compile u

def faulty (f : Faults) : Backend Payload :=
  { backend with name := "counting", compile := compileWithFaults f }

end Outline
end Ripple
