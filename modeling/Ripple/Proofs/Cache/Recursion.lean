import Ripple.Proofs.Cache.Uncached
import Ripple.Proofs.Graph.References

/-!
# The recursion for fingerprints

A fingerprint is worked out by a recursion along effective dependencies that
keeps a table of what is known and looks for no cycles. It ends all the same: the
effective dependencies of any graph have none. The table changes nothing, and
the recursion fails on a missing project only.
-/

namespace Ripple
namespace Context

/-!
# The recursion without a bound

The rules say what the recursion comes to, and what is known afterwards. A call
that does not end comes to nothing.
-/

mutual

inductive Prints (ctx : Context) (environment : String) :
    Known → ProjectId → Except Error (Fingerprint × Known) → Prop where
  | known {known : Known} {id : ProjectId} {f : Fingerprint} (hknown : known.get? id = some f) :
      Prints ctx environment known id (.ok (f, known))
  | missing {known : Known} {id : ProjectId} (hnew : known.get? id = none)
      (hp : ctx.workspace.project? id = none) :
      Prints ctx environment known id (.error (.projectNotFound id))
  | failed {known : Known} {id : ProjectId} {p : Project} {e : Error}
      (hnew : known.get? id = none) (hp : ctx.workspace.project? id = some p)
      (hbelow : Gathers ctx environment known (ctx.graph.effectiveDependencies id) (.error e)) :
      Prints ctx environment known id (.error e)
  | printed {known known' : Known} {id : ProjectId} {p : Project}
      {found : List (ProjectId × Fingerprint)}
      (hnew : known.get? id = none) (hp : ctx.workspace.project? id = some p)
      (hbelow : Gathers ctx environment known (ctx.graph.effectiveDependencies id)
        (.ok (found, known'))) :
      Prints ctx environment known id
        (.ok (p.fingerprint environment found,
          known'.insert id (p.fingerprint environment found)))

inductive Gathers (ctx : Context) (environment : String) :
    Known → List ProjectId → Except Error (List (ProjectId × Fingerprint) × Known) → Prop where
  | nil {known : Known} : Gathers ctx environment known [] (.ok ([], known))
  | stop {known : Known} {c : ProjectId} {ids : List ProjectId} {e : Error}
      (hc : Prints ctx environment known c (.error e)) :
      Gathers ctx environment known (c :: ids) (.error e)
  | later {known known' : Known} {c : ProjectId} {ids : List ProjectId} {f : Fingerprint}
      {e : Error} (hc : Prints ctx environment known c (.ok (f, known')))
      (hrest : Gathers ctx environment known' ids (.error e)) :
      Gathers ctx environment known (c :: ids) (.error e)
  | cons {known known' known'' : Known} {c : ProjectId} {ids : List ProjectId}
      {f : Fingerprint} {found : List (ProjectId × Fingerprint)}
      (hc : Prints ctx environment known c (.ok (f, known')))
      (hrest : Gathers ctx environment known' ids (.ok (found, known''))) :
      Gathers ctx environment known (c :: ids) (.ok ((c, f) :: found, known''))

end

variable {ctx : Context} {environment : String}

theorem foldlM_of_gathers {depth : Nat} {ids : List ProjectId}
    (hone : ∀ c ∈ ids, ∀ known r, ctx.Prints environment known c r →
      ctx.fingerprintWith environment depth known c = r)
    (found : List (ProjectId × Fingerprint)) {known : Known}
    {r : Except Error (List (ProjectId × Fingerprint) × Known)}
    (h : ctx.Gathers environment known ids r) :
    ids.foldlM (ctx.gatherPrint environment depth) (found, known) =
      r.map fun more => (found ++ more.1, more.2) := by
  induction ids generalizing found known r with
  | nil =>
      cases h
      simp [Except.map, pure, Except.pure]
  | cons c ids ih =>
      have htail := fun d hd => hone d (List.mem_cons_of_mem c hd)
      rw [List.foldlM_cons, gatherPrint]
      cases h with
      | stop hc =>
          rw [hone c List.mem_cons_self _ _ hc]
          rfl
      | @later _ known' _ _ f e hc hrest =>
          rw [hone c List.mem_cons_self _ _ hc]
          exact ih htail (found ++ [(c, f)]) hrest
      | @cons _ known' _ _ _ f more hc hrest =>
          rw [hone c List.mem_cons_self _ _ hc]
          change List.foldlM _ (found ++ [(c, f)], known') ids = _
          rw [ih htail (found ++ [(c, f)]) hrest]
          simp [Except.map]

theorem exists_gathers {ids : List ProjectId}
    (hone : ∀ c ∈ ids, ∀ known, ∃ r, ctx.Prints environment known c r) (known : Known) :
    ∃ r, ctx.Gathers environment known ids r := by
  induction ids generalizing known with
  | nil => exact ⟨_, .nil⟩
  | cons c ids ih =>
      rcases hone c List.mem_cons_self known with ⟨e | ⟨f, known'⟩, hc⟩
      · exact ⟨_, .stop hc⟩
      · rcases ih (fun d hd => hone d (List.mem_cons_of_mem c hd)) known' with
          ⟨e | ⟨found, known''⟩, hrest⟩
        · exact ⟨_, .later hc hrest⟩
        · exact ⟨_, .cons hc hrest⟩

/-- Every call ends. -/
theorem exists_prints (ctx : Context) (environment : String) (known : Known) (id : ProjectId) :
    ∃ r, ctx.Prints environment known id r := by
  induction id using ctx.graph.effective_induction generalizing known with
  | step id ih =>
      cases hnew : known.get? id with
      | some f => exact ⟨_, .known hnew⟩
      | none =>
          cases hp : ctx.workspace.project? id with
          | none => exact ⟨_, .missing hnew hp⟩
          | some p =>
              rcases exists_gathers (fun c hc known => ih c hc known) known with
                ⟨e | ⟨found, known'⟩, hbelow⟩
              · exact ⟨_, .failed hnew hp hbelow⟩
              · exact ⟨_, .printed hnew hp hbelow⟩

/-- With a large enough bound on the depth the bounded recursion comes to the same. -/
theorem fingerprintWith_of_prints {depth : Nat} {known : Known} {id : ProjectId}
    {r : Except Error (Fingerprint × Known)} (hdepth : ctx.graph.height id < depth)
    (h : ctx.Prints environment known id r) :
    ctx.fingerprintWith environment depth known id = r := by
  induction depth generalizing known id r with
  | zero => cases hdepth
  | succ depth ih =>
      have hone : ∀ c ∈ ctx.graph.effectiveDependencies id, ∀ known r,
          ctx.Prints environment known c r →
          ctx.fingerprintWith environment depth known c = r := by
        intro c hc known r
        have hlt := Graph.height_lt hc
        exact ih (by omega)
      rw [fingerprintWith]
      cases h with
      | known hknown => simp only [hknown]
      | missing hnew hp => simp only [hnew, hp]
      | failed hnew hp hbelow =>
          have hfold := foldlM_of_gathers hone [] hbelow
          simp only [hnew, hp, hfold]
          rfl
      | printed hnew hp hbelow =>
          have hfold := foldlM_of_gathers hone [] hbelow
          simp only [hnew, hp, hfold]
          rfl

theorem prints_iff {known : Known} {id : ProjectId} {r : Except Error (Fingerprint × Known)} :
    ctx.Prints environment known id r ↔
      ctx.fingerprintWith environment (ctx.graph.projectCount + 1) known id = r := by
  have hdepth : ctx.graph.height id < ctx.graph.projectCount + 1 :=
    Nat.lt_succ_of_le (ctx.graph.height_le id)
  constructor
  · exact fingerprintWith_of_prints hdepth
  · rintro rfl
    rcases exists_prints ctx environment known id with ⟨r, hr⟩
    rw [fingerprintWith_of_prints hdepth hr]
    exact hr

/-!
# Failures
-/

theorem exists_of_gathers_error {known : Known} {ids : List ProjectId} {e : Error}
    (h : ctx.Gathers environment known ids (.error e)) :
    ∃ c ∈ ids, ∃ known', ctx.Prints environment known' c (.error e) := by
  induction ids generalizing known with
  | nil => cases h
  | cons c ids ih =>
      cases h with
      | stop hc => exact ⟨c, List.mem_cons_self, _, hc⟩
      | later _ hrest =>
          rcases ih hrest with ⟨d, hd, known', h⟩
          exact ⟨d, List.mem_cons_of_mem c hd, known', h⟩

/-- Only a missing project makes the recursion fail. -/
theorem missing_of_prints_error {known : Known} {id : ProjectId} {e : Error}
    (h : ctx.Prints environment known id (.error e)) :
    ∃ missing, ctx.graph.Needs id missing ∧ ctx.workspace.project? missing = none ∧
      e = .projectNotFound missing := by
  induction id using ctx.graph.effective_induction generalizing known with
  | step id ih =>
      cases h with
      | missing _ hp => exact ⟨id, .refl, hp, rfl⟩
      | failed _ _ hbelow =>
          rcases exists_of_gathers_error hbelow with ⟨c, hc, known', hcError⟩
          rcases ih c hc hcError with ⟨missing, hneeds, hmissing⟩
          exact ⟨missing, .head hc hneeds, hmissing⟩

theorem missing_of_fingerprint_error {id : ProjectId} {e : Error}
    (h : ctx.fingerprint environment id = .error e) :
    ∃ missing, ctx.graph.Needs id missing ∧ ctx.workspace.project? missing = none ∧
      e = .projectNotFound missing := by
  have hprints : ctx.Prints environment .empty id (.error e) := by
    rw [prints_iff]
    unfold fingerprint at h
    cases hwith : ctx.fingerprintWith environment (ctx.graph.projectCount + 1) .empty id with
    | error e' =>
        rw [hwith] at h
        cases h
        rfl
    | ok r =>
        rw [hwith] at h
        cases h
  exact missing_of_prints_error hprints

theorem fingerprint_ofWorkspace_error_iff {session : SessionId} {w : Workspace}
    {id : ProjectId} {e : Error} :
    (ofWorkspace session w).fingerprint environment id = .error e ↔
      w.project? id = none ∧ e = .projectNotFound id := by
  constructor
  · intro h
    rcases missing_of_fingerprint_error h with ⟨missing, hneeds, hp, rfl⟩
    rcases Relation.ReflTransGen.cases_tail hneeds with rfl | ⟨other, _, hmissing⟩
    · exact ⟨hp, rfl⟩
    · rcases Graph.project?_of_mem_ids (Graph.mem_ids_of_effective hmissing) with ⟨p, hsome⟩
      have hnone : w.project? missing = none := hp
      rw [hnone] at hsome
      cases hsome
  · rintro ⟨hp, rfl⟩
    rw [fingerprint_eq_print, print_eq]
    simp only [ofWorkspace, hp]

/-!
# Without a table
-/

/-- Fingerprints of projects, one after the other. -/
def inTurn (print : ProjectId → Except Error Fingerprint) (ids : List ProjectId) :
    Except Error (List (ProjectId × Fingerprint)) :=
  ids.mapM fun other => do
    let f ← print other
    pure (other, f)

theorem inTurn_congr {print print' : ProjectId → Except Error Fingerprint}
    {ids : List ProjectId} (h : ∀ c ∈ ids, print c = print' c) :
    inTurn print ids = inTurn print' ids := by
  induction ids with
  | nil => rfl
  | cons c ids ih =>
      have htail := ih fun d hd => h d (List.mem_cons_of_mem c hd)
      unfold inTurn at htail ⊢
      rw [List.mapM_cons, List.mapM_cons, h c List.mem_cons_self, htail]

theorem prints_eq_inTurn (ctx : Context) (environment : String) (ids : List ProjectId) :
    ctx.prints environment ids = inTurn (ctx.print environment) ids := by
  induction ids with
  | nil => rfl
  | cons c ids ih =>
      rw [prints_cons, ih, inTurn, inTurn, List.mapM_cons]
      cases ctx.print environment c <;> rfl

/-- A function that goes through the recursion without keeping what is known. -/
def Recurs (ctx : Context) (environment : String)
    (print : ProjectId → Except Error Fingerprint) : Prop :=
  ∀ id, print id =
    match ctx.workspace.project? id with
    | none => .error (.projectNotFound id)
    | some p => (inTurn print (ctx.graph.effectiveDependencies id)).map (p.fingerprint environment)

theorem recurs_print (ctx : Context) (environment : String) :
    ctx.Recurs environment (ctx.print environment) := by
  intro id
  have hprint := print_eq ctx environment id
  rw [prints_eq_inTurn] at hprint
  exact hprint

/-- There is one such function only. -/
theorem recurs_iff {print : ProjectId → Except Error Fingerprint} :
    ctx.Recurs environment print ↔ print = ctx.fingerprint environment := by
  have hprint : ctx.fingerprint environment = ctx.print environment :=
    funext fun id => ctx.fingerprint_eq_print environment id
  rw [hprint]
  constructor
  · intro h
    funext id
    induction id using ctx.graph.effective_induction with
    | step id ih =>
        rw [h id, recurs_print ctx environment id, inTurn_congr ih]
  · rintro rfl
    exact recurs_print ctx environment

/-- Nor does a table change the result that holds right fingerprints only. -/
theorem map_fst_fingerprintWith {known : Known} (id : ProjectId)
    (hknown : ∀ other f, known.get? other = some f → ctx.fingerprint environment other = .ok f) :
    (ctx.fingerprintWith environment (ctx.graph.projectCount + 1) known id).map Prod.fst =
      ctx.fingerprint environment id := by
  have hright : ctx.IsRight environment known := by
    intro other f h
    rw [← fingerprint_eq_print]
    exact hknown other f h
  have hdepth : ctx.graph.height id < ctx.graph.projectCount + 1 :=
    Nat.lt_succ_of_le (ctx.graph.height_le id)
  rcases fingerprintWith_eq hdepth hright with ⟨_, _, h⟩
  rw [h, fingerprint_eq_print]
  cases ctx.print environment id <;> rfl

/-!
# Well-foundedness
-/

/-- The recursion for fingerprints has one result for every call, and the same with
a table as without. -/
structure Founded (ctx : Context) (environment : String) : Prop where
  wellFounded : WellFounded fun c id => c ∈ ctx.graph.effectiveDependencies id
  ends : ∀ known id, ∃! r, ctx.Prints environment known id r
  bounded : ∀ known id r, ctx.Prints environment known id r ↔
    ctx.fingerprintWith environment (ctx.graph.projectCount + 1) known id = r
  unmemoized : ∀ print, ctx.Recurs environment print ↔ print = ctx.fingerprint environment
  known : ∀ known id, (∀ other f, known.get? other = some f →
      ctx.fingerprint environment other = .ok f) →
    (ctx.fingerprintWith environment (ctx.graph.projectCount + 1) known id).map Prod.fst =
      ctx.fingerprint environment id
  missing : ∀ known id e, ctx.Prints environment known id (.error e) →
    ∃ missing, ctx.graph.Needs id missing ∧ ctx.workspace.project? missing = none ∧
      e = .projectNotFound missing

theorem founded (ctx : Context) (environment : String) : ctx.Founded environment where
  wellFounded := Graph.wellFounded_effective ctx.graph
  ends known id := by
    rcases exists_prints ctx environment known id with ⟨r, hr⟩
    refine ⟨r, hr, fun r' hr' => ?_⟩
    rw [← prints_iff.mp hr, ← prints_iff.mp hr']
  bounded _ _ _ := prints_iff
  unmemoized _ := recurs_iff
  known _ id := map_fst_fingerprintWith id
  missing _ _ _ := missing_of_prints_error

/-- Effective dependencies have no cycle, whatever the references are; so the
recursion along them ends, and it fails on missing projects only. -/
theorem fingerprinting_founded :
    (∀ w : Workspace, Graph.Untangles w (.build w)) ∧
      (∀ (ctx : Context) (environment : String), ctx.Founded environment) ∧
      ∀ (session : SessionId) (w : Workspace) (environment : String) (id : ProjectId) (e : Error),
        (ofWorkspace session w).fingerprint environment id = .error e ↔
          w.project? id = none ∧ e = .projectNotFound id := by
  refine ⟨Graph.untangles_build, founded, ?_⟩
  intro session w environment id e
  exact fingerprint_ofWorkspace_error_iff

end Context
end Ripple
