import Ripple.Store.Basic
import Ripple.Table

/-!
# Disks

A disk is a tree of directories and files, kept as a table from places to what
stands there. A place is the list of names on the way down from the root, which
is always a directory. Relative paths start where the disk's user stands.
-/

namespace Ripple

/-- The names on the way down from the root. -/
abbrev Place := List String

inductive Disk.Node where
  | directory
  | file (bytes : ByteArray)

structure Disk where
  nodes : Table Place Disk.Node
  /-- Where relative paths start. -/
  here : Place

namespace Disk

def empty : Disk := ⟨∅, []⟩

instance : Inhabited Disk := ⟨empty⟩

def node? (d : Disk) (place : Place) : Option Node :=
  if place = [] then some .directory else d.nodes.get? place

def isDirectory (d : Disk) (place : Place) : Bool :=
  match d.node? place with
  | some .directory => true
  | _ => false

def put (d : Disk) (place : Place) (node : Node) : Disk :=
  { d with nodes := d.nodes.insert place node }

def remove (d : Disk) (place : Place) : Disk :=
  { d with nodes := d.nodes.erase place }

@[simp] theorem node?_root (d : Disk) : d.node? [] = some .directory := rfl

theorem node?_put_self (d : Disk) {place : Place} (h : place ≠ []) (node : Node) :
    (d.put place node).node? place = some node := by
  simp [node?, put, h]

theorem node?_put_of_ne (d : Disk) {place other : Place} (h : other ≠ place) (node : Node) :
    (d.put place node).node? other = d.node? other := by
  simp [node?, put, Table.get?_insert_of_ne _ h]

theorem node?_remove_self (d : Disk) {place : Place} (h : place ≠ []) :
    (d.remove place).node? place = none := by
  simp [node?, remove, h]

theorem node?_remove_of_ne (d : Disk) {place other : Place} (h : other ≠ place) :
    (d.remove place).node? other = d.node? other := by
  simp [node?, remove, Table.get?_erase_of_ne _ h]

/-!
# Following a path

The pieces of a path are followed one by one. Every piece needs a directory to
start from, also an empty one and `.`, which stay where they are. Whether
anything stands at the end is left open.
-/

/-- The longest name of a file, in bytes. -/
def longestName : Nat := 255

def requireDirectory (d : Disk) (place : Place) : Except FileError Unit :=
  match d.node? place with
  | some .directory => .ok ()
  | some (.file _) => .error .notADirectory
  | none => .error .noEntry

def follow (d : Disk) (place : Place) (piece : String) : Except FileError Place := do
  d.requireDirectory place
  if piece = "" || piece = "." then pure place
  else if piece = ".." then pure place.dropLast
  else if longestName < piece.utf8ByteSize then throw .nameTooLong
  else pure (place ++ [piece])

def start (d : Disk) (p : Path) : Place :=
  if p.isAbsolute then [] else d.here

def followAll (d : Disk) (p : Path) (pieces : List String) : Except FileError Place :=
  pieces.foldlM d.follow (d.start p)

/-- The place that a path leads to. -/
def locate (d : Disk) (p : Path) : Except FileError Place :=
  if p.text.isEmpty then .error .noEntry
  else if p.text.toList.contains '\x00' then .error .zeroCharacter
  else d.followAll p p.pieces

/-- The place that a path leads to, if something stands there. -/
def locateNode (d : Disk) (p : Path) : Except FileError (Place × Node) := do
  let place ← d.locate p
  match d.node? place with
  | some node => pure (place, node)
  | none => throw .noEntry

/-!
# Reading
-/

def readBytes (d : Disk) (p : Path) : Except FileError ByteArray := do
  match ← d.locateNode p with
  | (_, .directory) => throw .isADirectory
  | (_, .file bytes) => pure bytes

def read (d : Disk) (p : Path) : Except FileError String := do
  match String.fromUTF8? (← d.readBytes p) with
  | some text => pure text
  | none => throw .notText

/-- The file at a place, if there is one. -/
def file? (d : Disk) (place : Place) : Option ByteArray :=
  match d.node? place with
  | some (.file bytes) => some bytes
  | _ => none

end Disk

/-- The spelling of a place from the root down. -/
def Path.ofPlace (place : Place) : Path :=
  ⟨"/" ++ String.intercalate "/" place⟩

/-- The one spelling from the root down of a path to something that is there. -/
def Disk.canonical (d : Disk) (p : Path) : Except FileError Path := do
  let (place, _) ← d.locateNode p
  pure (.ofPlace place)

end Ripple
