import Ripple.Engine.Lifecycle

/-!
# Events on files

A change of a known document is read from the store and folded into the
session. Whatever may change the set of documents loads the workspace anew:
changes of a manifest, known documents that are gone, and new source files.
-/

namespace Ripple
namespace Engine

open Cache

variable {σ π : Type}

/-- Reads one document again and says which projects have been invalidated. -/
def reload (sv : Services σ π) (id : SessionId) (path : Path) :
    Operation σ π (List ProjectId) := do
  let s ← Operation.find id
  let path := s.workspace.resolve path
  match s.workspace.document? path with
  | none => Operation.fail (.documentNotFound path)
  | some (p, d) =>
      match ← Operation.readText sv path with
      | .error e => Operation.fail (.readFailed path e.message)
      | .ok content =>
          if content = d.content then pure []
          else
            let s := ((s.updateDocument path content).map Prod.snd).getD s
            Operation.setSession s
            Operation.updateTables fun t => t.invalidateDownstream id s.graph p.id
            pure (Tables.affectedBy s.graph p.id)

inductive FileEvent where
  | created (path : Path)
  | modified (path : Path)
  | removed (path : Path)
  deriving DecidableEq, Repr, Inhabited

def FileEvent.path : FileEvent → Path
  | .created p | .modified p | .removed p => p

inductive EventOutcome where
  | skipped
  | refreshed
  | reloaded (invalidated : List ProjectId)
  deriving DecidableEq, Repr, Inhabited

/-!
# Which paths matter
-/

def sourceExtension : String := "arb"

def ignoredNames : List String := ["target", ".git", "node_modules"]

def isManifest (p : Path) : Bool :=
  p.fileName? = some manifestName

def isSource (p : Path) : Bool :=
  p.extension? = some sourceExtension

def isIgnored (p : Path) : Bool :=
  p.fileName?.any (fun name => name.endsWith temporaryEnding) ||
    p.key.any fun
      | .name name => name ∈ ignoredNames
      | _ => false

/-!
# Folding an event in
-/

def applyEvent (sv : Services σ π) (id : SessionId) (event : FileEvent) :
    Operation σ π EventOutcome := do
  let path := event.path
  if isIgnored path then return .skipped
  let s ← Operation.find id
  if s.isPaused then return .skipped
  let known := (s.workspace.document? path).isSome
  let renew : Operation σ π EventOutcome := do
    refresh sv id
    pure .refreshed
  if isManifest path then renew
  else
    match event with
    | .removed _ => if known then renew else pure .skipped
    | .created _ | .modified _ =>
        if known then return .reloaded (← reload sv id path)
        else if isSource path then renew
        else pure .skipped

end Engine
end Ripple
