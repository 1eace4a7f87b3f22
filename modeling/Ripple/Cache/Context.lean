import Ripple.Error
import Ripple.Fingerprint.Stream
import Ripple.Graph.Order
import Ripple.Number
import Ripple.Table

/-!
# Build contexts

A project is compiled for a session, from a workspace, along a graph. Its
fingerprint in such a context covers the project and the fingerprints of its
effective dependencies, and so everything that it is compiled against.
-/

namespace Ripple

structure Context where
  session : SessionId
  workspace : Workspace
  graph : Graph
  deriving Repr, Inhabited, DecidableEq

namespace Context

/-- The context whose graph is drawn from its workspace. -/
def ofWorkspace (session : SessionId) (w : Workspace) : Context :=
  ⟨session, w, .build w⟩

abbrev Known := Table ProjectId Fingerprint

/-- The fingerprint of a project, and all that are known afterwards. The first
argument bounds the depth of the dependencies; effective dependencies have no
cycle, so no chain of them is longer than the graph has nodes. -/
def fingerprintWith (ctx : Context) (environment : String) :
    Nat → Known → ProjectId → Except Error (Fingerprint × Known)
  | 0, _, id => .error (.projectNotFound id)
  | depth + 1, known, id =>
      match known.get? id with
      | some f => .ok (f, known)
      | none =>
          match ctx.workspace.project? id with
          | none => .error (.projectNotFound id)
          | some p => do
              let (dependencies, known) ←
                (ctx.graph.effectiveDependencies id).foldlM
                  (fun (found, known) other => do
                    let (f, known) ← fingerprintWith ctx environment depth known other
                    pure (found ++ [(other, f)], known))
                  ([], known)
              let f := p.fingerprint environment dependencies
              pure (f, known.insert id f)

def fingerprint (ctx : Context) (environment : String) (id : ProjectId) :
    Except Error Fingerprint :=
  (ctx.fingerprintWith environment (ctx.graph.projectCount + 1) .empty id).map Prod.fst

/-- For each node, a bound on the steps that compiling it from nothing takes. -/
def efforts (ctx : Context) : Table ProjectId Nat :=
  ctx.graph.topologicalOrder.foldl
    (fun known id =>
      let below := (ctx.graph.effectiveDependencies id).map fun other =>
        (known.get? other).getD 0 + 8
      known.insert id (16 + Number.total below))
    .empty

def effort (ctx : Context) (id : ProjectId) : Nat :=
  (ctx.efforts.get? id).getD 16

end Context
end Ripple
