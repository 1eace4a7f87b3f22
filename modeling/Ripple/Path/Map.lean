import Ripple.Path

/-!
# Maps keyed by paths

The rows stand in the order of their paths. Two spellings of one place share a
row: the row keeps the spelling that came first and the value that came last.
-/

namespace Ripple

structure PathMap (ν : Type) where
  rows : List (Path × ν)
  deriving Repr, DecidableEq

namespace PathMap

variable {ν : Type}

def empty : PathMap ν := ⟨[]⟩

instance : Inhabited (PathMap ν) := ⟨empty⟩

instance : EmptyCollection (PathMap ν) := ⟨empty⟩

def size (m : PathMap ν) : Nat := m.rows.length

def values (m : PathMap ν) : List ν := m.rows.map Prod.snd

def get? (m : PathMap ν) (p : Path) : Option ν :=
  (m.rows.find? fun row => row.1.same p).map Prod.snd

def contains (m : PathMap ν) (p : Path) : Bool :=
  (m.get? p).isSome

def placeRow (p : Path) (v : ν) : List (Path × ν) → List (Path × ν)
  | [] => [(p, v)]
  | row :: rows =>
      if row.1.same p then (row.1, v) :: rows
      else if row.1.le p then row :: placeRow p v rows
      else (p, v) :: row :: rows

def insert (m : PathMap ν) (p : Path) (v : ν) : PathMap ν :=
  ⟨placeRow p v m.rows⟩

def erase (m : PathMap ν) (p : Path) : PathMap ν :=
  ⟨m.rows.filter fun row => !row.1.same p⟩

def ofList (rows : List (Path × ν)) : PathMap ν :=
  rows.foldl (fun m row => m.insert row.1 row.2) empty

def map (m : PathMap ν) (f : ν → μ) : PathMap μ :=
  ⟨m.rows.map fun row => (row.1, f row.2)⟩

end PathMap
end Ripple
