import Ripple.Diagnostic

/-!
# Differences between lists of diagnostics

Two diagnostics count as the same when they have the same rule, place and
message; severity and project do not matter. Equal diagnostics are matched one
to one, so two before and one after leave one resolved.
-/

namespace Ripple

namespace Diagnostic

structure Key where
  rule : String
  file : List Component
  line : Nat
  column : Nat
  message : String
  deriving DecidableEq, Repr

def key (d : Diagnostic) : Key :=
  ⟨d.rule, d.file.key, d.line, d.column, d.message⟩

end Diagnostic

structure Delta where
  /-- There before and no longer there. -/
  resolved : List Diagnostic
  /-- Not there before. -/
  introduced : List Diagnostic
  /-- There before and still there, as they are now. -/
  unchanged : List Diagnostic
  deriving DecidableEq, Repr, Inhabited

namespace Delta

def empty : Delta := ⟨[], [], []⟩

/-- The diagnostics with a partner among the keys, and those without; each key
is the partner of one diagnostic. -/
def pair : List Diagnostic.Key → List Diagnostic → List Diagnostic × List Diagnostic
  | _, [] => ([], [])
  | keys, d :: ds =>
      if d.key ∈ keys then
        let rest := pair (keys.erase d.key) ds
        (d :: rest.1, rest.2)
      else
        let rest := pair keys ds
        (rest.1, d :: rest.2)

def compute (before after : List Diagnostic) : Delta :=
  let now := pair (before.map Diagnostic.key) after
  ⟨(pair (after.map Diagnostic.key) before).2, now.2, now.1⟩

def isEmpty (d : Delta) : Bool :=
  d.resolved.isEmpty && d.introduced.isEmpty

def introducesErrors (d : Delta) : Bool :=
  d.introduced.any Diagnostic.isError

end Delta
end Ripple
