/-!
# Paths

A path is kept as it was spelled. Two spellings name the same place when they
have the same components: repeated and trailing slashes do not count, nor does a
`.` that is not the first component, while `..` is kept.
-/

namespace Ripple

structure Path where
  text : String
  deriving DecidableEq, Repr, Inhabited, Hashable

/-- The root comes before `.`, that before `..`, and names follow by their bytes. -/
inductive Component where
  | root
  | here
  | up
  | name (text : String)
  deriving DecidableEq, Repr, Inhabited, Hashable, Ord

namespace Path

def isAbsolute (p : Path) : Bool :=
  p.text.toList.head? = some '/'

def component? (piece : List Char) : Option Component :=
  if piece = [] ∨ piece = ['.'] then none
  else if piece = ['.', '.'] then some .up
  else some (.name (String.ofList piece))

/-- The components of a path. -/
def key (p : Path) : List Component :=
  match p.text.toList.splitOn '/' with
  | [] :: _ :: _ => .root :: (p.text.toList.splitOn '/').filterMap component?
  | ['.'] :: pieces => .here :: pieces.filterMap component?
  | pieces => pieces.filterMap component?

/-- The two spellings have the same components. -/
def same (p q : Path) : Bool :=
  p.key = q.key

/-- What stands between the slashes of a path. -/
def pieces (p : Path) : List String :=
  (p.text.toList.splitOn '/').map String.ofList

/-- A path below a directory: an absolute path stands on its own. -/
def join (dir p : Path) : Path :=
  if p.isAbsolute then p
  else if dir.text.isEmpty || dir.text.toList.getLast? = some '/' then ⟨dir.text ++ p.text⟩
  else ⟨dir.text ++ "/" ++ p.text⟩

/-- The last component, when it is a name. -/
def fileName? (p : Path) : Option String :=
  match p.key.getLast? with
  | some (.name text) => some text
  | _ => none

/-- What follows the last dot of the file name, unless that dot comes first. -/
def extension? (p : Path) : Option String := do
  let name ← p.fileName?
  let pieces := name.toList.splitOn '.'
  match pieces.dropLast with
  | [] => none
  | [[]] => none
  | _ => pieces.getLast?.map String.ofList

end Path

/-!
# Order of paths
-/

namespace Component

def compareKeys : List Component → List Component → Ordering
  | [], [] => .eq
  | [], _ :: _ => .lt
  | _ :: _, [] => .gt
  | a :: as, b :: bs => (compare a b).then (compareKeys as bs)

end Component

/-- Paths are ordered by their components. -/
def Path.le (p q : Path) : Bool :=
  Component.compareKeys p.key q.key ≠ .gt

end Ripple
