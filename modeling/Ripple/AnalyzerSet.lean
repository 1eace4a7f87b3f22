import Ripple.Fingerprint.Stream

/-!
# Sets of analyzers

A set of analyzers lists their names in order, each once, and carries the
fingerprint of that list, so that equal sets have equal keys.
-/

namespace Ripple

structure AnalyzerSet where
  names : List String
  key : Fingerprint
  deriving DecidableEq, Repr, Inhabited

namespace AnalyzerSet

/-- In order and without repetition. -/
def normalize (names : List String) : List String :=
  (names.mergeSort fun a b => decide (a ≤ b)).eraseDups

def ofNames (names : List String) : AnalyzerSet :=
  let names := normalize names
  ⟨names, .ofStream (Stream.ofNames names)⟩

def isEmpty (s : AnalyzerSet) : Bool :=
  s.names.isEmpty

def contains (s : AnalyzerSet) (name : String) : Bool :=
  s.names.contains name

end AnalyzerSet

/-- Which analyzers a session asks for. -/
structure AnalyzerChoice where
  useDefaults : Bool
  additional : List String
  disabled : List String
  deriving DecidableEq, Repr

/-- The defaults and nothing else. -/
def AnalyzerChoice.default : AnalyzerChoice := ⟨true, [], []⟩

instance : Inhabited AnalyzerChoice := ⟨.default⟩

end Ripple
