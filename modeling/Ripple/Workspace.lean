import Ripple.Project

/-!
# Workspaces

A workspace is a root directory and its projects. Where several projects have
one id, or several documents one path, the first is the one that a look-up
finds. Relative paths are read from the root.
-/

namespace Ripple

/-- The file in the root of a workspace that lists its projects. -/
def manifestName : String := "arbor.toml"

structure Workspace where
  root : Path
  projects : List Project
  deriving DecidableEq, Repr, Inhabited

namespace Workspace

def project? (w : Workspace) (id : ProjectId) : Option Project :=
  w.projects.find? fun p => p.id = id

def resolve (w : Workspace) (path : Path) : Path :=
  if path.isAbsolute then path else w.root.join path

/-- The first project that has a document at the path, and that document. -/
def document? (w : Workspace) (path : Path) : Option (Project × Document) :=
  w.projects.findSome? fun p => (p.document? (w.resolve path)).map fun d => (p, d)

def documents (w : Workspace) : List Document :=
  w.projects.flatMap Project.documents

def documentCount (w : Workspace) : Nat :=
  w.documents.length

/-!
# Replacing the content of one document
-/

def setFirstDocument (path : Path) (content : String) :
    List Document → Option (List Document)
  | [] => none
  | d :: ds =>
      if d.path.same path then some ({ d with content := content } :: ds)
      else (setFirstDocument path content ds).map (d :: ·)

def setFirstProject (path : Path) (content : String) :
    List Project → Option (List Project)
  | [] => none
  | p :: ps =>
      match setFirstDocument path content p.documents with
      | some ds => some ({ p with documents := ds } :: ps)
      | none => (setFirstProject path content ps).map (p :: ·)

/-- The workspace with a new content for the document found at the path. -/
def setContent? (w : Workspace) (path : Path) (content : String) : Option Workspace :=
  (setFirstProject (w.resolve path) content w.projects).map fun ps => { w with projects := ps }

def override (overrides : Overrides) (w : Workspace) : Workspace :=
  { w with projects := w.projects.map (Project.override overrides) }

end Workspace
end Ripple
