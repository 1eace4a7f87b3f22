import Ripple.Cache.Context
import Ripple.Proofs.Fingerprint.Delimited
import Ripple.Proofs.Graph.Effective

/-!
# Fingerprints of projects in a context

The fingerprint of a project is worked out from those of its effective
dependencies; keeping the ones that are known does not change it. As long as no
two streams collide, a fingerprint says which projects it was taken of, and so
everything that is worked out along effective dependencies.
-/

namespace Ripple
namespace Context

/-- A value worked out from a project and the values of its effective dependencies. -/
def fold (ctx : Context) (step : ProjectId → Option Project → List (ProjectId × β) → β)
    (id : ProjectId) : β :=
  ctx.graph.fold (fun id below => step id (ctx.workspace.project? id) below) id

theorem fold_eq (ctx : Context) (step : ProjectId → Option Project → List (ProjectId × β) → β)
    (id : ProjectId) :
    ctx.fold step id =
      step id (ctx.workspace.project? id)
        ((ctx.graph.effectiveDependencies id).map fun c => (c, ctx.fold step c)) :=
  ctx.graph.fold_eq _ id

/-- Contexts that agree on some projects, and on all that these depend on, come to
the same values there. -/
theorem fold_congr {ctx ctx' : Context} {P : ProjectId → Prop} (hgraph : ctx'.graph = ctx.graph)
    (hclosed : ∀ {id c}, P id → c ∈ ctx.graph.effectiveDependencies id → P c)
    (hproject : ∀ id, P id → ctx'.workspace.project? id = ctx.workspace.project? id)
    (step : ProjectId → Option Project → List (ProjectId × β) → β) {id : ProjectId} (hid : P id) :
    ctx'.fold step id = ctx.fold step id := by
  induction id using ctx.graph.effective_induction with
  | step id ih =>
      rw [fold_eq, fold_eq, hproject id hid, hgraph]
      congr 1
      refine List.map_congr_left fun c hc => ?_
      rw [ih c hc (hclosed hid hc)]

/-!
# Without a table of known fingerprints
-/

/-- All fingerprints, or the first failure. -/
def allPrints : List (ProjectId × Except Error Fingerprint) →
    Except Error (List (ProjectId × Fingerprint))
  | [] => .ok []
  | (_, .error e) :: _ => .error e
  | (id, .ok f) :: rest => (allPrints rest).map ((id, f) :: ·)

def printStep (environment : String) (id : ProjectId) :
    Option Project → List (ProjectId × Except Error Fingerprint) → Except Error Fingerprint
  | none, _ => .error (.projectNotFound id)
  | some p, below => (allPrints below).map (p.fingerprint environment)

def print (ctx : Context) (environment : String) (id : ProjectId) : Except Error Fingerprint :=
  ctx.fold (printStep environment) id

/-- The fingerprints of projects, in order. -/
def prints (ctx : Context) (environment : String) (ids : List ProjectId) :
    Except Error (List (ProjectId × Fingerprint)) :=
  allPrints (ids.map fun c => (c, ctx.print environment c))

theorem print_eq (ctx : Context) (environment : String) (id : ProjectId) :
    ctx.print environment id =
      match ctx.workspace.project? id with
      | none => .error (.projectNotFound id)
      | some p =>
          (ctx.prints environment (ctx.graph.effectiveDependencies id)).map
            (p.fingerprint environment) := by
  rw [print, fold_eq]
  cases ctx.workspace.project? id <;> rfl

theorem prints_cons (ctx : Context) (environment : String) (id : ProjectId)
    (ids : List ProjectId) :
    ctx.prints environment (id :: ids) =
      match ctx.print environment id with
      | .error e => .error e
      | .ok f => (ctx.prints environment ids).map ((id, f) :: ·) := by
  rw [prints, List.map_cons]
  cases ctx.print environment id <;> rfl

/-- The table holds right fingerprints only. -/
def IsRight (ctx : Context) (environment : String) (known : Known) : Prop :=
  ∀ id f, known.get? id = some f → ctx.print environment id = .ok f

theorem isRight_insert {ctx : Context} {environment : String} {known : Known}
    {id : ProjectId} {f : Fingerprint} (hknown : ctx.IsRight environment known)
    (hf : ctx.print environment id = .ok f) : ctx.IsRight environment (known.insert id f) := by
  intro other g hg
  by_cases h : other = id
  · rw [h, Table.get?_insert_self] at hg
    cases hg
    exact h ▸ hf
  · rw [Table.get?_insert_of_ne _ h] at hg
    exact hknown other g hg

/-- One step of `fingerprintWith` along a list of dependencies. -/
abbrev gatherPrint (ctx : Context) (environment : String) (depth : Nat)
    (found : List (ProjectId × Fingerprint) × Known) (other : ProjectId) :
    Except Error (List (ProjectId × Fingerprint) × Known) := do
  let (f, known) ← fingerprintWith ctx environment depth found.2 other
  pure (found.1 ++ [(other, f)], known)

theorem foldlM_gatherPrint {ctx : Context} {environment : String} {depth : Nat}
    {ids : List ProjectId}
    (hone : ∀ c ∈ ids, ∀ known, ctx.IsRight environment known →
      ∃ known', ctx.IsRight environment known' ∧
        ctx.fingerprintWith environment depth known c =
          (ctx.print environment c).map fun f => (f, known'))
    (found : List (ProjectId × Fingerprint)) {known : Known}
    (hknown : ctx.IsRight environment known) :
    ∃ known', ctx.IsRight environment known' ∧
      ids.foldlM (ctx.gatherPrint environment depth) (found, known) =
        (ctx.prints environment ids).map fun more => (found ++ more, known') := by
  induction ids generalizing found known with
  | nil =>
      exact ⟨known, hknown, by simp [prints, allPrints, Except.map, pure, Except.pure]⟩
  | cons c ids ih =>
      rcases hone c List.mem_cons_self known hknown with ⟨known₁, hknown₁, hc⟩
      rw [List.foldlM_cons, prints_cons, gatherPrint, hc]
      cases ctx.print environment c with
      | error e =>
          exact ⟨known, hknown, rfl⟩
      | ok f =>
          obtain ⟨known₂, hknown₂, hrest⟩ :=
            ih (fun d hd => hone d (List.mem_cons_of_mem c hd)) (found ++ [(c, f)]) hknown₁
          refine ⟨known₂, hknown₂, ?_⟩
          change List.foldlM _ (found ++ [(c, f)], known₁) ids = _
          rw [hrest]
          cases ctx.prints environment ids with
          | error e => rfl
          | ok more => simp [Except.map]

theorem fingerprintWith_eq {ctx : Context} {environment : String} {depth : Nat}
    {known : Known} {id : ProjectId} (hdepth : ctx.graph.height id < depth)
    (hknown : ctx.IsRight environment known) :
    ∃ known', ctx.IsRight environment known' ∧
      ctx.fingerprintWith environment depth known id =
        (ctx.print environment id).map fun f => (f, known') := by
  induction depth generalizing known id with
  | zero =>
      cases hdepth
  | succ depth ih =>
      rw [fingerprintWith]
      cases hget : known.get? id with
      | some f =>
          exact ⟨known, hknown, by rw [hknown id f hget]; rfl⟩
      | none =>
          have hprint := ctx.print_eq environment id
          cases hp : ctx.workspace.project? id with
          | none =>
              rw [hp] at hprint
              exact ⟨known, hknown, by rw [hprint]; rfl⟩
          | some p =>
              rw [hp] at hprint
              have hone : ∀ c ∈ ctx.graph.effectiveDependencies id, ∀ known,
                  ctx.IsRight environment known → ∃ known', ctx.IsRight environment known' ∧
                    ctx.fingerprintWith environment depth known c =
                      (ctx.print environment c).map fun f => (f, known') := by
                intro c hc known hknown
                have hlt := Graph.height_lt hc
                exact ih (by omega) hknown
              rcases foldlM_gatherPrint hone [] hknown with ⟨known₁, hknown₁, hdeps⟩
              simp only [List.nil_append] at hdeps
              cases hps : ctx.prints environment (ctx.graph.effectiveDependencies id) with
              | error e =>
                  rw [hps] at hprint hdeps
                  refine ⟨known, hknown, ?_⟩
                  simp only [hdeps]
                  rw [hprint]
                  rfl
              | ok found =>
                  rw [hps] at hprint hdeps
                  refine ⟨_, isRight_insert hknown₁ hprint, ?_⟩
                  simp only [hdeps]
                  rw [hprint]
                  rfl

/-- The depth that the fingerprint of a project is looked for in is never reached. -/
theorem fingerprint_eq_print (ctx : Context) (environment : String) (id : ProjectId) :
    ctx.fingerprint environment id = ctx.print environment id := by
  have hdepth : ctx.graph.height id < ctx.graph.projectCount + 1 :=
    Nat.lt_succ_of_le (ctx.graph.height_le id)
  have hknown : ctx.IsRight environment .empty := by
    intro id f h
    cases h
  rcases fingerprintWith_eq hdepth hknown with ⟨known, _, h⟩
  rw [fingerprint, h]
  cases ctx.print environment id <;> rfl

end Context
end Ripple
