import Ripple.Disk.Basic

/-!
# Writing to a disk

A text is first written to a neighbour of the file and then moved into place, so
that no failure leaves half a text in the file. When the move fails, the
neighbour is taken away again.
-/

namespace Ripple

def Path.isIdlePiece (piece : String) : Bool :=
  piece = "" || piece = "."

/-- The pieces of a path up to the last one that leads somewhere. -/
def Path.activePieces (p : Path) : List String :=
  (p.pieces.reverse.dropWhile isIdlePiece).reverse

/-- The pieces of the neighbour through which a path is written. A path without
a name at its end has its neighbour inside. -/
def Path.neighbourPieces (p : Path) : List String :=
  match p.fileName? with
  | some name => p.activePieces.dropLast ++ [name ++ temporaryEnding]
  | none => p.activePieces ++ [temporaryEnding]

namespace Disk

/-- Creates a file or replaces what is in it. -/
def writeFresh (d : Disk) (place : Place) (bytes : ByteArray) : Except FileError Disk :=
  if d.isDirectory place then .error .isADirectory
  else .ok (d.put place (.file bytes))

/-- Where a file can be moved to by a path. Slashes at the end are for
directories alone. -/
def moveTarget (d : Disk) (p : Path) : Except FileError Place := do
  if p.text.isEmpty then throw .noEntry
  let kept := (p.pieces.reverse.dropWhile fun piece => piece = "").reverse
  let parent ← d.followAll p kept.dropLast
  d.requireDirectory parent
  match kept.getLast? with
  | none => throw .busy
  | some last =>
      if last = "." || last = ".." then throw .busy
      else if kept.length < p.pieces.length then throw .notADirectory
      else
        let place ← d.follow parent last
        if d.isDirectory place then throw .isADirectory
        pure place

/-- Takes a file from one place to another. -/
def move (d : Disk) (source target : Place) (bytes : ByteArray) : Disk :=
  (d.remove source).put target (.file bytes)

def write (d : Disk) (p : Path) (text : String) : Except FileError Unit × Disk :=
  let bytes := text.toUTF8
  let staged : Except FileError (Place × Disk) := do
    if p.text.toList.contains '\x00' then throw .zeroCharacter
    let place ← d.followAll p p.neighbourPieces
    pure (place, ← d.writeFresh place bytes)
  match staged with
  | .error e => (.error e, d)
  | .ok (place, staged) =>
      match staged.moveTarget p with
      | .ok target => (.ok (), staged.move place target bytes)
      | .error e => (.error e, staged.remove place)

end Disk
end Ripple
