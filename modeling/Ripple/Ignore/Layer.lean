import Ripple.Disk.Basic
import Ripple.Ignore.Rule

/-!
# Which paths are ignored

Every directory on the way to a path may hold ignore files. Of each kind of file
the deepest one that says anything about the path decides; the plain kind comes
first, then the files that belong to a repository. Those count only inside a
repository, and only up to the directory in which it begins.
-/

namespace Ripple
namespace Ignore

/-- The rules that the files of one directory hold. -/
structure Layer where
  plain : List Rule
  shared : List Rule
  exclude : List Rule
  /-- A repository begins here. -/
  startsRepository : Bool
  deriving Inhabited

namespace Layer

def plainFile : String := ".ignore"

def sharedFile : String := ".gitignore"

def repositoryName : String := ".git"

def excludeFile : List String := [repositoryName, "info", "exclude"]

def rulesAt (d : Disk) (place : Place) : List Rule :=
  (d.file? place).elim [] rulesOf

def of (d : Disk) (place : Place) : Layer where
  plain := rulesAt d (place ++ [plainFile])
  shared := rulesAt d (place ++ [sharedFile])
  exclude := rulesAt d (place ++ excludeFile)
  startsRepository := (d.node? (place ++ [repositoryName])).isSome

end Layer

/-- The layers for a place from its directory up to the root, each with the path
of the place from there. -/
def layersOf (d : Disk) (place : Place) : List (Layer × String) :=
  (List.range place.length).reverse.map fun depth =>
    (.of d (place.take depth), String.intercalate "/" (place.drop depth))

/-- The layers up to the first in which a repository begins. -/
def withinRepository : List (Layer × String) → List (Layer × String)
  | [] => []
  | layer :: rest => if layer.1.startsRepository then [layer] else layer :: withinRepository rest

/-- The first verdict of the rules of one kind, going up. -/
def firstVerdict (rules : Layer → List Rule) (isDirectory : Bool)
    (layers : List (Layer × String)) : Option Verdict :=
  layers.findSome? fun layer => verdict? (rules layer.1) layer.2 isDirectory

def decide? (d : Disk) (place : Place) (isDirectory : Bool) : Option Verdict :=
  let layers := layersOf d place
  let tracked :=
    if layers.any fun layer => layer.1.startsRepository then withinRepository layers else []
  firstVerdict Layer.plain isDirectory layers <|>
    firstVerdict Layer.shared isDirectory tracked <|>
    firstVerdict Layer.exclude isDirectory tracked

def isIgnored (d : Disk) (place : Place) : Bool :=
  decide? d place (d.isDirectory place) = some .ignored

end Ignore
end Ripple
