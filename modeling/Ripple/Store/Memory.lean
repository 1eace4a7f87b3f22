import Ripple.Store.Basic

/-!
# The store in memory

Files are kept in a map, some paths can be closed to writing, and one workspace
is handed out for whatever root is asked for. Successful writes and loads of the
workspace are counted.
-/

namespace Ripple

structure Memory where
  files : PathMap String
  closed : PathMap Unit
  writes : Nat
  workspace : Option Workspace
  /-- Whether loads fail all the same. -/
  isBroken : Bool
  loads : Nat
  deriving Repr, Inhabited

namespace Memory

def empty : Memory := ⟨∅, ∅, 0, none, false, 0⟩

/-- The files are the documents of the workspace, the last one where paths repeat. -/
def ofWorkspace (w : Workspace) : Memory :=
  { empty with
    files := .ofList (w.documents.map fun d => (d.path, d.content))
    workspace := some w }

def closeTo (m : Memory) (path : Path) : Memory :=
  { m with closed := m.closed.insert path () }

def read (m : Memory) (path : Path) : Except FileError String :=
  match m.files.get? path with
  | some text => .ok text
  | none => .error (.unknown path)

def write (m : Memory) (path : Path) (text : String) : Except FileError Unit × Memory :=
  if m.closed.contains path then (.error (.rejected path), m)
  else (.ok (), { m with files := m.files.insert path text, writes := m.writes + 1 })

def load (m : Memory) (_source : Source) (root : Path) : Except String Workspace × Memory :=
  let counted := { m with loads := m.loads + 1 }
  match m.workspace, m.isBroken with
  | some w, false => (.ok w, counted)
  | _, _ => (.error ("No project model at " ++ root.text), counted)

def store : Store Memory := ⟨read, write, load⟩

end Memory
end Ripple
