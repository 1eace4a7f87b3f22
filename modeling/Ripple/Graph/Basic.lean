import Ripple.Number
import Ripple.Workspace

/-!
# The reference graph

The nodes of the graph are the valid ids of a workspace, each once and in the
order of the workspace. A node refers to the other nodes that the first project
of its id lists. Lists of neighbours are in the order of the nodes.
-/

namespace Ripple

structure Node where
  id : ProjectId
  /-- In the order in which they are listed. -/
  references : List ProjectId
  deriving DecidableEq, Repr, Inhabited

structure Graph where
  nodes : List Node
  deriving DecidableEq, Repr, Inhabited

namespace Graph

def empty : Graph := ⟨[]⟩

/-- The ids that become nodes. -/
def validIds (w : Workspace) : List ProjectId :=
  ((w.projects.map Project.id).filter ProjectId.isValid).eraseDups

def referencesOf (ids : List ProjectId) (p : Project) : List ProjectId :=
  (p.references.filter fun r => r ∈ ids ∧ r ≠ p.id).eraseDups

def build (w : Workspace) : Graph :=
  let ids := validIds w
  ⟨ids.map fun id =>
    ⟨id, (w.project? id).elim [] (referencesOf ids)⟩⟩

/-!
# Neighbours
-/

def ids (g : Graph) : List ProjectId :=
  g.nodes.map Node.id

def node? (g : Graph) (id : ProjectId) : Option Node :=
  g.nodes.find? fun n => n.id = id

def contains (g : Graph) (id : ProjectId) : Bool :=
  (g.node? id).isSome

def references (g : Graph) (id : ProjectId) : List ProjectId :=
  (g.node? id).elim [] Node.references

def projectCount (g : Graph) : Nat :=
  g.nodes.length

def referenceCount (g : Graph) : Nat :=
  Number.total (g.nodes.map fun n => n.references.length)

/-- The projects that a project refers to. -/
def dependencies (g : Graph) (id : ProjectId) : List ProjectId :=
  let listed := g.references id
  g.ids.filter fun other => other ∈ listed

/-- The projects that refer to a project. -/
def dependents (g : Graph) (id : ProjectId) : List ProjectId :=
  (g.nodes.filter fun n => id ∈ n.references).map Node.id

/-- The projects that refer to no other. -/
def leaves (g : Graph) : List ProjectId :=
  (g.nodes.filter fun n => n.references.isEmpty).map Node.id

/-- The projects that no other refers to. -/
def roots (g : Graph) : List ProjectId :=
  g.ids.filter fun id => (g.dependents id).isEmpty

/-!
# Closures

A closure is listed ring by ring: first the project itself, then the projects
one reference away, then those two references away.
-/

/-- The ring and what lies beyond it, with `n` bounding the number of rings. -/
def ringsFrom (next : ProjectId → List ProjectId) :
    Nat → List ProjectId → List ProjectId → List ProjectId
  | 0, _, _ => []
  | n + 1, seen, ring =>
      if ring.isEmpty then []
      else
        let beyond := (ring.flatMap next).eraseDups.filter fun id => id ∉ seen
        ring ++ ringsFrom next n (seen ++ beyond) beyond

def closure (g : Graph) (next : ProjectId → List ProjectId) (id : ProjectId) : List ProjectId :=
  if g.contains id then ringsFrom next g.nodes.length [id] [id] else []

/-- The project and all that depend on it, however indirectly. -/
def withDependents (g : Graph) (id : ProjectId) : List ProjectId :=
  g.closure g.dependents id

/-- The project and all that it depends on, however indirectly. -/
def withDependencies (g : Graph) (id : ProjectId) : List ProjectId :=
  g.closure g.dependencies id

/-- The dependencies that do not themselves depend on the project. -/
def effectiveDependencies (g : Graph) (id : ProjectId) : List ProjectId :=
  let below := g.withDependents id
  (g.dependencies id).filter fun other => other ∉ below

end Graph
end Ripple
