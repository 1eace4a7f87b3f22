import Ripple.Ignore.Layer

/-!
# Discovering sources

The sources of a project are the files below its directory that match one of its
globs. What is ignored is left out, and nothing inside an ignored directory is
found. The directory itself is never ignored.
-/

namespace Ripple
namespace Manifest

def sourceStyle : Glob.Style := ⟨false, false⟩

/-- The place and all the places above it that lie below the directory. -/
def stepsTo (directory relative : Place) : List Place :=
  (List.range relative.length).map fun depth => directory ++ relative.take (depth + 1)

def isReachable (d : Disk) (directory relative : Place) : Bool :=
  (stepsTo directory relative).all fun place => !Ignore.isIgnored d place

/-- The files at a place or below it, by their names from there. -/
def filesBelow (d : Disk) (directory : Place) : List Place :=
  d.nodes.rows.filterMap fun row =>
    match row.2 with
    | .file _ => if directory.isPrefixOf row.1 then some (row.1.drop directory.length) else none
    | .directory => none

def isSource (globs : List Glob) (relative : Place) : Bool :=
  globs.any fun g => g.matchesText (String.intercalate "/" relative)

/-- The path of a place below a directory, in the spelling of the directory. -/
def spell (directory : Path) (relative : Place) : Path :=
  relative.foldl (fun p name => p.join ⟨name⟩) directory

/-- The sources below a directory in the order of their paths. -/
def discover (d : Disk) (directory : Path) (globs : List Glob) : List Path :=
  match d.locateNode directory with
  | .error _ => []
  | .ok (place, _) =>
      let found := (filesBelow d place).filter fun relative =>
        isSource globs relative && isReachable d place relative
      (found.map (spell directory)).mergeSort Path.le

end Manifest
end Ripple
