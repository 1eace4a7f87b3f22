import Ripple.Project

/-!
# Diagnostics

A diagnostic is a finding at a place in a document of a project. Severities are
ordered from the least to the most severe.
-/

namespace Ripple

inductive Severity where
  | hidden
  | info
  | warning
  | error
  deriving DecidableEq, Repr, Inhabited, Ord

namespace Severity

def name : Severity → String
  | .hidden => "hidden"
  | .info => "info"
  | .warning => "warning"
  | .error => "error"

def all : List Severity := [.hidden, .info, .warning, .error]

def ofName? (s : String) : Option Severity :=
  all.find? fun severity => severity.name = s

theorem ofName?_name (s : Severity) : ofName? s.name = some s := by
  cases s <;> decide

end Severity

structure Diagnostic where
  rule : String
  severity : Severity
  message : String
  file : Path
  line : Nat
  column : Nat
  project : ProjectId
  deriving DecidableEq, Repr, Inhabited

namespace Diagnostic

def isError (d : Diagnostic) : Bool :=
  d.severity = .error

/-- The place, the severity, the rule and the message on one line. -/
def render (d : Diagnostic) : String :=
  d.file.text ++ ":" ++ toString d.line ++ ":" ++ toString d.column ++ ": " ++
    d.severity.name ++ " [" ++ d.rule ++ "] " ++ d.message

end Diagnostic
end Ripple
