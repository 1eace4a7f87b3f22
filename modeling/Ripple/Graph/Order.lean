import Ripple.Graph.Basic

/-!
# Orders and cycles

A walk goes through a graph in depth and lists a node when all that it leads to
has been visited, so that a node comes after what it depends on unless the two
are in a cycle. The groups of mutually dependent projects are listed in the
order in which a walk along the references, the newest first, completes them.
-/

namespace Ripple
namespace Graph

/-- What a walk has entered, and what it has left, in the order of leaving. -/
structure Walk where
  entered : List ProjectId
  left : List ProjectId
  deriving Repr, Inhabited

/-- Visits a node and what it leads to; the first argument bounds the depth. -/
def walkFrom (next : ProjectId → List ProjectId) : Nat → Walk → ProjectId → Walk
  | 0, w, _ => w
  | depth + 1, w, id =>
      if id ∈ w.entered then w
      else
        let inner := (next id).foldl (walkFrom next depth) { w with entered := id :: w.entered }
        { inner with left := inner.left ++ [id] }

/-- All nodes, each after those that the walk completes before it. -/
def walk (g : Graph) (next : ProjectId → List ProjectId) : List ProjectId :=
  (g.ids.foldl (walkFrom next g.nodes.length) ⟨[], []⟩).left

/-- Dependencies before dependents, as far as there is no cycle. -/
def topologicalOrder (g : Graph) : List ProjectId :=
  g.walk g.dependencies

/-- The projects that depend on the project and on which it depends. -/
def group (g : Graph) (id : ProjectId) : List ProjectId :=
  let above := g.withDependencies id
  let below := g.withDependents id
  g.ids.filter fun other => other ∈ above ∧ other ∈ below

/-- The groups of more than one project, each where its last member is left. -/
def cycles (g : Graph) : List (List ProjectId) :=
  let groups := (g.walk fun id => (g.references id).reverse).map g.group
  (groups.reverse.eraseDups.reverse).filter fun members => 1 < members.length

def hasCycles (g : Graph) : Bool :=
  !g.cycles.isEmpty

end Graph
end Ripple
