import Ripple.Project

/-!
# Errors

Why an operation did not do what it was asked. The message of an error is one
line, and errors fall into five coarse kinds. What comes from outside, such as
a compiler's complaint, is kept as its text.
-/

namespace Ripple

structure SessionId where
  text : String
  deriving DecidableEq, Repr, Inhabited, Hashable, Ord

inductive Error where
  | sessionNotFound (id : SessionId)
  | projectNotFound (id : ProjectId)
  | documentNotFound (path : Path)
  | invalidInput (cause : String)
  | backend (cause : String)
  | partialFailure (failed total : Nat) (causes : String)
  | cancelled
  deriving DecidableEq, Repr, Inhabited

namespace Error

inductive Kind where
  | notFound
  | invalidInput
  | backendFailure
  | partialFailure
  | cancelled
  deriving DecidableEq, Repr, Inhabited

def kind : Error → Kind
  | .sessionNotFound _ | .projectNotFound _ | .documentNotFound _ => .notFound
  | .invalidInput _ => .invalidInput
  | .backend _ => .backendFailure
  | .partialFailure _ _ _ => .partialFailure
  | .cancelled => .cancelled

def message : Error → String
  | .sessionNotFound id => "session '" ++ id.text ++ "' not found"
  | .projectNotFound id => "project '" ++ id.text ++ "' not found"
  | .documentNotFound path =>
      "document '" ++ path.text ++ "' is not part of the loaded project model"
  | .invalidInput cause => "invalid input: " ++ cause
  | .backend cause => "backend failure: " ++ cause
  | .partialFailure failed total causes =>
      toString failed ++ " of " ++ toString total ++ " operations failed: " ++ causes
  | .cancelled => "operation cancelled"

/-!
# Causes with a fixed wording
-/

def compileFailed (id : ProjectId) (cause : String) : Error :=
  .backend (id.text ++ ": " ++ cause)

def compilePanicked (id : ProjectId) : Error :=
  .backend ("compile of " ++ id.text ++ " panicked")

def analyzersFailed (id : ProjectId) (cause : String) : Error :=
  .backend ("analyzers for " ++ id.text ++ ": " ++ cause)

def loadFailed (root : Path) (cause : String) : Error :=
  .backend ("failed to load " ++ root.text ++ ": " ++ cause)

def analyzersNotLoaded (cause : String) : Error :=
  .backend ("failed to load analyzers: " ++ cause)

def readFailed (path : Path) (cause : String) : Error :=
  .backend ("failed to read " ++ path.text ++ ": " ++ cause)

def writeFailed (path : Path) (cause : String) : Error :=
  .backend ("failed to write " ++ path.text ++ ": " ++ cause)

def emptyBatch : Error :=
  .invalidInput "edit batch is empty"

end Error

/-!
# How a batch went
-/

inductive Status where
  | success
  | partialSuccess
  | failure
  deriving DecidableEq, Repr, Inhabited

/-- An empty batch is a success. -/
def Status.ofCounts (succeeded failed : Nat) : Status :=
  if failed = 0 then .success
  else if succeeded = 0 then .failure
  else .partialSuccess

end Ripple
