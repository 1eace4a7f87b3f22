import Ripple.Cache.Request

/-!
# Plans

What a caller does with the cache is a plan: it requests artifacts, has units
compiled for itself alone, and looks listings up and stores them. A plan says
what comes next for every answer, and how it is carried out is left open.
-/

namespace Ripple
namespace Cache

variable {π α β : Type}

inductive Plan (π : Type) (α : Type) where
  | done (a : α)
  | request (ctx : Context) (id : ProjectId)
      (next : Except Error (Resolved π) → Plan π α)
  /-- Compiles a unit outside the tables. A panic ends the caller. -/
  | compile (u : CompileUnit π) (next : Except String (Held (Artifact π)) → Plan π α)
  | consult (key : ListingKey) (next : Option Listing → Plan π α)
  | file (key : ListingKey) (f : Fingerprint) (diagnostics : List Diagnostic)
      (next : Held (List Diagnostic) → Plan π α)

namespace Plan

def bind : Plan π α → (α → Plan π β) → Plan π β
  | .done a, k => k a
  | .request ctx id next, k => .request ctx id fun r => (next r).bind k
  | .compile u next, k => .compile u fun r => (next r).bind k
  | .consult key next, k => .consult key fun l => (next l).bind k
  | .file key f ds next, k => .file key f ds fun l => (next l).bind k

theorem bind_bind {γ : Type} (plan : Plan π α) (k : α → Plan π β) (l : β → Plan π γ) :
    (plan.bind k).bind l = plan.bind fun a => (k a).bind l := by
  induction plan with
  | done a => rfl
  | request ctx id next ih => exact congrArg (Plan.request ctx id) (funext ih)
  | compile u next ih => exact congrArg (Plan.compile u) (funext ih)
  | consult key next ih => exact congrArg (Plan.consult key) (funext ih)
  | file key f ds next ih => exact congrArg (Plan.file key f ds) (funext ih)

instance : Monad (Plan π) where
  pure := .done
  bind := bind

instance : Inhabited (Plan π (Except Error α)) := ⟨.done (.error .cancelled)⟩

/-- Plans that may come to nothing. -/
abbrev Attempt (π : Type) := ExceptT Error (Plan π)

/-!
# Artifacts
-/

def resolve (ctx : Context) (id : ProjectId) : Attempt π (Resolved π) :=
  Plan.request ctx id .done

/-- The artifact of a project, compiled if it is not stored. -/
def getOrCreate (ctx : Context) (id : ProjectId) : Attempt π (Held (Artifact π)) := do
  let r ← resolve ctx id
  pure r.artifact

def compileAlone (id : ProjectId) (u : CompileUnit π) : Attempt π (Held (Artifact π)) :=
  Plan.compile u fun
    | .ok a => .done (.ok a)
    | .error cause => .done (.error (.compileFailed id cause))

/-!
# Speculative builds

With overrides, the projects downstream of a touched project are rebuilt from
the overridden texts, dependencies first and only as far as the asked project
needs them. All others come from the cache.
-/

/-- The projects that some override reaches. -/
def reached (ctx : Context) (overrides : Overrides) : List ProjectId :=
  (ctx.workspace.projects.filter fun p => p.isTouchedBy overrides).flatMap fun p =>
    ctx.graph.withDependents p.id

abbrev Built (π : Type) := Table ProjectId (Held (Artifact π))

def references (ctx : Context) (built : Built π) :
    List ProjectId → Attempt π (List (Held (Artifact π)))
  | [] => pure []
  | id :: ids => do
      let a ← match built.get? id with
        | some a => pure a
        | none => getOrCreate ctx id
      let more ← references ctx built ids
      pure (a :: more)

def rebuild (ctx : Context) (overrides : Overrides) : Built π → List ProjectId →
    Attempt π (Built π)
  | built, [] => pure built
  | built, id :: ids =>
      match ctx.workspace.project? id with
      | none => throw (.projectNotFound id)
      | some p => do
          let found ← references ctx built (ctx.graph.effectiveDependencies id)
          let u := CompileUnit.ofProject (p.override overrides) (found.map Held.value)
          let a ← compileAlone id u
          rebuild ctx overrides (built.insert id a) ids

/-- The projects to rebuild for one project, dependencies first. -/
def rebuilt (ctx : Context) (overrides : Overrides) (id : ProjectId) : List ProjectId :=
  let touched := reached ctx overrides
  let needed := ctx.graph.withDependencies id
  ctx.graph.topologicalOrder.filter fun other => other ∈ needed ∧ other ∈ touched

/-- The artifact that the project would have with the overridden texts. -/
def speculate (ctx : Context) (id : ProjectId) (overrides : Overrides) :
    Attempt π (Held (Artifact π)) :=
  match ctx.workspace.project? id with
  | none => throw (.projectNotFound id)
  | some _ =>
      if id ∈ reached ctx overrides then do
        let built ← rebuild ctx overrides .empty (rebuilt ctx overrides id)
        match built.get? id with
        | some a => pure a
        | none => throw (.projectNotFound id)
      else getOrCreate ctx id

/-!
# Diagnostics
-/

/-- The diagnostics of an artifact, with those of the analyzers if asked for. -/
def collect (b : Backend π) (a : Artifact π) (s : AnalyzerSet) (analyzed : Bool) :
    Except Error (List Diagnostic) :=
  if analyzed && !s.isEmpty then
    match b.analyze a s with
    | .ok found => .ok (b.diagnostics a ++ found)
    | .error cause => .error (.analyzersFailed a.project cause)
  else .ok (b.diagnostics a)

/-- The diagnostics of a project, listed once for each artifact and set. -/
def diagnostics (b : Backend π) (ctx : Context) (id : ProjectId) (s : AnalyzerSet)
    (analyzed : Bool) : Attempt π (Held (List Diagnostic)) := do
  let r ← resolve ctx id
  let key : ListingKey := ⟨⟨ctx.session, id⟩, s.key, analyzed⟩
  let compute : Attempt π (Held (List Diagnostic)) := do
    let ds ← liftExcept (collect b r.artifact.value s analyzed)
    Plan.file key r.fingerprint ds fun held => .done (.ok held)
  let listing? : Option Listing ← (Plan.consult key fun l => .done (.ok l) : Plan π _)
  match listing? with
  | some l => if l.fingerprint = r.fingerprint then pure l.diagnostics else compute
  | none => compute
where
  liftExcept {γ : Type} (e : Except Error γ) : Attempt π γ := Plan.done e

/-- The diagnostics that the project would have with the overridden texts. -/
def speculativeDiagnostics (b : Backend π) (ctx : Context) (id : ProjectId)
    (overrides : Overrides) (s : AnalyzerSet) (analyzed : Bool) :
    Attempt π (List Diagnostic) := do
  let a ← speculate ctx id overrides
  Plan.done (collect b a.value s analyzed)

end Plan
end Cache
end Ripple
