import Ripple.Disk.Write
import Ripple.Manifest.Basic
import Ripple.Manifest.Discovery
import Ripple.Workspace

/-!
# Loading workspaces from a disk

A workspace is loaded from the manifest in its root. A directory without one can
be loaded as a single project that is named after it. Projects are loaded in the
order of the manifest, and the globs of a project are read before its sources.
-/

namespace Ripple

/-- Why a workspace could not be loaded. -/
inductive LoadError where
  | noRoot (root : Path) (cause : FileError)
  | noDirectory (directory : Path) (cause : FileError)
  | unreadable (path : Path) (cause : FileError)
  | malformed (manifest : Path)
  | badGlob (text : String) (cause : GlobError)
  deriving DecidableEq, Repr, Inhabited

namespace LoadError

/-- What is wrong inside a malformed manifest is not said further. -/
def message : LoadError → String
  | .noRoot root cause => "Workspace root " ++ root.text ++ " does not exist: " ++ cause.message
  | .noDirectory directory cause =>
      "Project directory " ++ directory.text ++ " does not exist: " ++ cause.message
  | .unreadable path cause => "Failed to read " ++ path.text ++ ": " ++ cause.message
  | .malformed manifest => "Failed to parse " ++ manifest.text ++ ": TOML parse error"
  | .badGlob text cause => "Invalid source glob " ++ text ++ ": " ++ cause.message text

end LoadError

namespace Manifest

def readGlobs (texts : List String) : Except LoadError (List Glob) :=
  texts.mapM fun text => (Glob.parse sourceStyle text).mapError (.badGlob text)

def readDocument (d : Disk) (path : Path) : Except LoadError Document := do
  pure ⟨path, ← (d.read path).mapError (.unreadable path)⟩

def readSources (d : Disk) (directory : Path) (globTexts : List String) :
    Except LoadError (List Document) := do
  (discover d directory (← readGlobs globTexts)).mapM (readDocument d)

def loadProject (d : Disk) (root : Path) (e : Entry) : Except LoadError Project := do
  pure {
    id := e.projectId
    name := e.name
    documents := ← readSources d (root.join e.path) e.sources
    references := e.references.map ProjectId.mk
    metadata := e.metadata
    options := e.options }

def loadWorkspace (d : Disk) (root : Path) : Except LoadError Workspace := do
  let root ← (d.canonical root).mapError (.noRoot root)
  let path := root.join ⟨manifestName⟩
  match ofToml? (← (d.read path).mapError (.unreadable path)) with
  | none => throw (.malformed path)
  | some m => pure ⟨root, ← m.entries.mapM (loadProject d root)⟩

/-- The name of a project in a directory without one. -/
def namelessProject : String := "project"

def loadSingle (d : Disk) (directory : Path) : Except LoadError Workspace := do
  let directory ← (d.canonical directory).mapError (.noDirectory directory)
  let name := directory.fileName?.getD namelessProject
  let documents ← readSources d directory [defaultSources]
  pure ⟨directory, [⟨⟨name⟩, name, documents, [], [], .empty⟩]⟩

end Manifest

namespace Disk

def load (d : Disk) (source : Source) (root : Path) : Except LoadError Workspace :=
  match source with
  | .workspace => Manifest.loadWorkspace d root
  | .project => Manifest.loadSingle d root

/-- Loading leaves a disk as it is. -/
def store : Store Disk where
  read := read
  write := write
  load := fun d source root => ((d.load source root).mapError LoadError.message, d)

end Disk
end Ripple
