import Ripple.Path
import Ripple.Workspace

/-!
# Stores

A store is where texts are read and written by their paths, and where workspaces
are loaded from. Operations are functions on the state of the store; writing and
loading hand back the state that they leave, whether they succeed or not.
-/

namespace Ripple

/-- Why a file could not be read or written. -/
inductive FileError where
  | noEntry
  | notADirectory
  | isADirectory
  | notText
  /-- The path ends in no name of its own, so nothing can be put there. -/
  | busy
  | nameTooLong
  /-- The path has a character that no name can have. -/
  | zeroCharacter
  /-- The store has nothing at the path. -/
  | unknown (path : Path)
  /-- The store does not let the path be written. -/
  | rejected (path : Path)
  deriving DecidableEq, Repr, Inhabited

namespace FileError

def message : FileError → String
  | .noEntry => "No such file or directory (os error 2)"
  | .notADirectory => "Not a directory (os error 20)"
  | .isADirectory => "Is a directory (os error 21)"
  | .notText => "stream did not contain valid UTF-8"
  | .busy => "Device or resource busy (os error 16)"
  | .nameTooLong => "File name too long (os error 36)"
  | .zeroCharacter => "file name contained an unexpected NUL byte"
  | .unknown path => path.text
  | .rejected path => "write to " ++ path.text ++ " rejected"

/-- The kind of failure. -/
def kind : FileError → String
  | .noEntry => "NotFound"
  | .notADirectory => "NotADirectory"
  | .isADirectory => "IsADirectory"
  | .notText => "InvalidData"
  | .busy => "ResourceBusy"
  | .nameTooLong => "InvalidFilename"
  | .zeroCharacter => "InvalidInput"
  | .unknown _ => "NotFound"
  | .rejected _ => "PermissionDenied"

end FileError

/-- Written files pass through a neighbour with this ending. -/
def temporaryEnding : String := ".arbor-tmp"

/-- What a workspace is loaded as: everything below a root, or one project. -/
inductive Source where
  | workspace
  | project
  deriving DecidableEq, Repr, Inhabited

/-- The operations of a store with states `σ`. -/
structure Store (σ : Type) where
  read : σ → Path → Except FileError String
  write : σ → Path → String → Except FileError Unit × σ
  load : σ → Source → Path → Except String Workspace × σ

end Ripple
