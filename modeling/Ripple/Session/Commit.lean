import Ripple.Error

/-!
# Reports of commits

A commit writes pending texts one by one. Its report says which were written,
which were not and why, and which projects lost what was cached for them.
-/

namespace Ripple

structure FileFailure where
  path : Path
  error : Error
  deriving DecidableEq, Repr, Inhabited

structure CommitReport where
  written : List Path
  failed : List FileFailure
  invalidated : List ProjectId
  deriving DecidableEq, Repr, Inhabited

namespace CommitReport

def empty : CommitReport := ⟨[], [], []⟩

def status (r : CommitReport) : Status :=
  .ofCounts r.written.length r.failed.length

/-- The one error that stands for all failures, if there are any. -/
def failure? (r : CommitReport) : Option Error :=
  if r.failed.isEmpty then none
  else
    some (.partialFailure r.failed.length (r.failed.length + r.written.length)
      (String.intercalate "; " (r.failed.map fun f => f.error.message)))

end CommitReport
end Ripple
