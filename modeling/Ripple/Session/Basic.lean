import Ripple.AnalyzerSet
import Ripple.Cache.Context
import Ripple.Edit.Change
import Ripple.Store.Basic

/-!
# Sessions

A session holds a workspace as it was loaded and changed since, the graph drawn
from it, and the texts that edits would give to documents, which are pending
until they are committed or discarded.
-/

namespace Ripple

/-- Where the session stands between edits and their commit. -/
inductive Phase where
  | clean
  | staged
  | committed
  | rolledBack
  deriving DecidableEq, Repr, Inhabited

/-- A text that a document would have, and the project that it is counted to. -/
structure PendingEdit where
  project : ProjectId
  path : Path
  text : String
  deriving DecidableEq, Repr, Inhabited

structure Session where
  id : SessionId
  root : Path
  source : Source
  analyzers : AnalyzerSet
  workspace : Workspace
  /-- The graph drawn from the workspace. -/
  graph : Graph
  pending : PathMap PendingEdit
  phase : Phase
  lastAccess : Nat
  isPaused : Bool
  /-- The batch that compiles the leaves, while it is of interest. -/
  prewarm : Option Nat
  deriving Repr, Inhabited

namespace Session

def start (id : SessionId) (root : Path) (source : Source) (analyzers : AnalyzerSet)
    (w : Workspace) (now : Nat) : Session :=
  ⟨id, root, source, analyzers, w, .build w, ∅, .clean, now, false, none⟩

def context (s : Session) : Context :=
  ⟨s.id, s.workspace, s.graph⟩

def replaceWorkspace (s : Session) (w : Workspace) : Session :=
  { s with workspace := w, graph := .build w }

/-- Gives a document a new content and says which project it was found in. The
text of a document has no bearing on the graph. -/
def updateDocument (s : Session) (path : Path) (content : String) :
    Option (ProjectId × Session) := do
  let (p, _) ← s.workspace.document? path
  let w ← s.workspace.setContent? path content
  some (p.id, { s with workspace := w })

/-!
# Pending edits
-/

def stage (s : Session) (e : PendingEdit) : Session :=
  { s with pending := s.pending.insert e.path e, phase := .staged }

def pendingText? (s : Session) (path : Path) : Option String :=
  (s.pending.get? path).map PendingEdit.text

def pendingEdits (s : Session) : List PendingEdit := s.pending.values

/-- The pending texts, as overrides. -/
def overrides (s : Session) : Overrides :=
  s.pending.map PendingEdit.text

/-- Clears the pending edit of a path if it still has a text; otherwise nothing. -/
def clearPendingIf (s : Session) (path : Path) (text : String) : Option Session :=
  if s.pendingText? path = some text then some { s with pending := s.pending.erase path }
  else none

def discardPending (s : Session) : Session :=
  { s with pending := ∅ }

/-- Puts the outcome of an edit beside what is pending already: the edit is
applied to the pending text of its document, if there is one. -/
def stageEdit (s : Session) (w : Workspace) (e : DocumentEdit) :
    Except Error (ProjectId × Session) := do
  match w.document? e.file with
  | none => throw (.documentNotFound (w.resolve e.file))
  | some (p, d) =>
      let base := (s.pendingText? d.path).getD d.content
      match Change.applyAll base e.changes with
      | .error refusal => throw (.invalidInput refusal.message)
      | .ok text => pure (p.id, s.stage ⟨p.id, d.path, text⟩)

end Session
end Ripple
