import Mathlib.Data.Set.Function
import Ripple.Backend
import Ripple.Proofs.Cache.Fingerprint
import Ripple.Proofs.Graph.Build

/-!
# Builds without a cache

An uncached build compiles a project against the uncached artifacts of its
effective dependencies. All dependencies are built side by side and the first
failure ends the build, so of several failures it may report any one: a failed
build stands for the errors that it may end in.

Fingerprints stand for uncached builds as long as no two of the streams that are
hashed for them collide.
-/

namespace Ripple

/-- What a build comes to: an artifact, or the errors that it may end in. -/
abbrev Verdict (α : Type) := Except (List Error) α

namespace Verdict

variable {α β : Type}

/-- The answer is one that the build may end in. -/
def Allows (v : Verdict α) : Except Error α → Prop
  | .ok a => v = .ok a
  | .error e => ∃ es, v = .error es ∧ e ∈ es

theorem Allows.eq_of_ok {a : α} {result : Except Error α}
    (h : Verdict.Allows (.ok a) result) : result = .ok a := by
  cases result with
  | ok a' =>
      cases h
      rfl
  | error e =>
      rcases h with ⟨_, hes, _⟩
      cases hes

theorem Allows.eq_of_error {e : Error} {result : Except Error α}
    (h : Verdict.Allows (.error [e]) result) : result = .error e := by
  cases result with
  | ok a => cases h
  | error e' =>
      rcases h with ⟨_, hes, he⟩
      cases hes
      rw [List.mem_singleton.mp he]

theorem Allows.map {v : Verdict α} {result : Except Error α} (h : v.Allows result)
    (f : α → β) : Verdict.Allows (v.map f) (result.map f) := by
  cases result with
  | ok a =>
      have hv : v = .ok a := h
      rw [hv]
      rfl
  | error e =>
      rcases h with ⟨es, hv, he⟩
      exact ⟨es, by rw [hv]; rfl, he⟩

/-- All values, or the errors of everything that failed. -/
def all : List (ProjectId × Verdict α) → Verdict (List α)
  | [] => .ok []
  | (_, .ok a) :: rest => (all rest).map (a :: ·)
  | (_, .error es) :: rest =>
      match all rest with
      | .ok _ => .error es
      | .error more => .error (es ++ more)

theorem all_eq_ok_iff {below : List (ProjectId × Verdict α)} {as : List α} :
    all below = .ok as ↔ below.map Prod.snd = as.map .ok := by
  induction below generalizing as with
  | nil => cases as <;> simp [all]
  | cons row rest ih =>
      rcases row with ⟨id, v⟩
      cases v with
      | error es => cases hall : all rest <;> cases as <;> simp [all, hall]
      | ok a =>
          cases as with
          | nil => cases hall : all rest <;> simp [all, hall, Except.map]
          | cons a' as =>
              rw [List.map_cons, List.map_cons, List.cons.injEq, ← ih]
              cases hall : all rest <;> simp [all, hall, Except.map]

theorem mem_all_errors {below : List (ProjectId × Verdict α)} {id : ProjectId}
    {es : List Error} (hmem : (id, .error es) ∈ below) :
    ∃ all', all below = .error all' ∧ es ⊆ all' := by
  induction below with
  | nil =>
      cases hmem
  | cons row rest ih =>
      rcases row with ⟨id', v⟩
      cases v with
      | ok a =>
          rcases List.mem_cons.mp hmem with h | h
          · cases h
          · rcases ih h with ⟨errors, hall, hsub⟩
            exact ⟨errors, by simp [all, hall, Except.map], hsub⟩
      | error es' =>
          rcases List.mem_cons.mp hmem with h | h
          · cases h
            cases hall : all rest with
            | ok _ => exact ⟨es, by simp [all, hall], fun _ h => h⟩
            | error more => exact ⟨es ++ more, by simp [all, hall], List.subset_append_left _ _⟩
          · rcases ih h with ⟨errors, hall, hsub⟩
            exact ⟨es' ++ errors, by simp [all, hall],
              List.subset_append_of_subset_right _ hsub⟩

end Verdict

namespace Context

variable {π : Type}

/-!
# The uncached build
-/

/-- What compiling a project comes to. -/
def verdictOf (id : ProjectId) : CompileResult π → Verdict (Artifact π)
  | .compiled a => .ok a
  | .failed cause => .error [.compileFailed id cause]
  | .panicked => .error [.compilePanicked id]

def buildStep (b : Backend π) (id : ProjectId) :
    Option Project → List (ProjectId × Verdict (Artifact π)) → Verdict (Artifact π)
  | none, _ => .error [.projectNotFound id]
  | some p, below =>
      match Verdict.all below with
      | .error es => .error es
      | .ok references => verdictOf id (b.compile (.ofProject p references))

def uncached (ctx : Context) (b : Backend π) (id : ProjectId) : Verdict (Artifact π) :=
  ctx.fold (buildStep b) id

/-- The uncached builds of projects, in order. -/
def uncachedAll (ctx : Context) (b : Backend π) (ids : List ProjectId) :
    Verdict (List (Artifact π)) :=
  Verdict.all (ids.map fun c => (c, ctx.uncached b c))

theorem uncached_eq (ctx : Context) (b : Backend π) (id : ProjectId) :
    ctx.uncached b id =
      match ctx.workspace.project? id with
      | none => .error [.projectNotFound id]
      | some p =>
          match ctx.uncachedAll b (ctx.graph.effectiveDependencies id) with
          | .error es => .error es
          | .ok references => verdictOf id (b.compile (.ofProject p references)) := by
  rw [uncached, fold_eq]
  cases ctx.workspace.project? id <;> rfl

/-- An artifact is what the backend makes of the project and the artifacts below it. -/
theorem uncached_eq_ok_iff {ctx : Context} {b : Backend π} {id : ProjectId} {a : Artifact π} :
    ctx.uncached b id = .ok a ↔ ∃ p references, ctx.workspace.project? id = some p ∧
      ctx.uncachedAll b (ctx.graph.effectiveDependencies id) = .ok references ∧
      b.compile (.ofProject p references) = .compiled a := by
  rw [uncached_eq]
  constructor
  · intro h
    cases hp : ctx.workspace.project? id with
    | none => simp [hp] at h
    | some p =>
        cases hall : ctx.uncachedAll b (ctx.graph.effectiveDependencies id) with
        | error es => simp [hp, hall] at h
        | ok references =>
            refine ⟨p, references, rfl, rfl, ?_⟩
            cases hcompile : b.compile (.ofProject p references) with
            | compiled a' => simpa [hp, hall, hcompile, verdictOf] using h
            | failed cause => simp [hp, hall, hcompile, verdictOf] at h
            | panicked => simp [hp, hall, hcompile, verdictOf] at h
  · rintro ⟨p, references, hp, hall, hcompile⟩
    simp only [hp, hall, hcompile, verdictOf]

/-- The artifacts of builds that all succeed are those of the single builds. -/
theorem mem_of_uncachedAll {ctx : Context} {b : Backend π} {ids : List ProjectId}
    {as : List (Artifact π)} (h : ctx.uncachedAll b ids = .ok as) {a : Artifact π} :
    a ∈ as ↔ ∃ c ∈ ids, ctx.uncached b c = .ok a := by
  have hrows := Verdict.all_eq_ok_iff.mp h
  rw [List.map_map] at hrows
  have hmem : a ∈ as ↔ (.ok a : Verdict (Artifact π)) ∈ as.map .ok := by simp
  rw [hmem, ← hrows, List.mem_map]
  rfl

theorem uncached_of_below {ctx : Context} {b : Backend π} {id c : ProjectId} {p : Project}
    {es : List Error} (hp : ctx.workspace.project? id = some p)
    (hc : c ∈ ctx.graph.effectiveDependencies id) (hes : ctx.uncached b c = .error es) :
    ∃ errors, ctx.uncached b id = .error errors ∧ es ⊆ errors := by
  have hmem : (c, Except.error es) ∈
      (ctx.graph.effectiveDependencies id).map fun c => (c, ctx.uncached b c) :=
    List.mem_map.mpr ⟨c, hc, by rw [hes]⟩
  rcases Verdict.mem_all_errors hmem with ⟨errors, hall, hsub⟩
  refine ⟨errors, ?_, hsub⟩
  rw [uncached_eq, hp]
  simp only [uncachedAll, hall]

/-- A project without a fingerprint has no uncached build. -/
theorem uncached_of_print_error {ctx : Context} {b : Backend π} {environment : String}
    {id : ProjectId} {e : Error} (h : ctx.print environment id = .error e) :
    ∃ es, ctx.uncached b id = .error es ∧ e ∈ es := by
  induction id using ctx.graph.effective_induction generalizing e with
  | step id ih =>
      rw [print_eq] at h
      cases hp : ctx.workspace.project? id with
      | none =>
          rw [hp] at h
          cases h
          exact ⟨_, by rw [uncached_eq, hp], List.mem_singleton_self _⟩
      | some p =>
          rw [hp] at h
          have hfail : ∃ c ∈ ctx.graph.effectiveDependencies id,
              ctx.print environment c = .error e := by
            revert h
            generalize ctx.graph.effectiveDependencies id = ids
            induction ids with
            | nil =>
                intro h
                cases h
            | cons c ids ihs =>
                intro h
                simp only [prints_cons] at h
                cases hc : ctx.print environment c with
                | error e' =>
                    rw [hc] at h
                    cases h
                    exact ⟨c, List.mem_cons_self, hc⟩
                | ok f =>
                    rw [hc] at h
                    have hrest : Except.map (p.fingerprint environment)
                        (ctx.prints environment ids) = .error e := by
                      cases hps : ctx.prints environment ids <;> rw [hps] at h <;> cases h
                      rfl
                    rcases ihs hrest with ⟨d, hd, hde⟩
                    exact ⟨d, List.mem_cons_of_mem c hd, hde⟩
          rcases hfail with ⟨c, hc, hce⟩
          rcases ih c hc hce with ⟨es, hes, hmem⟩
          rcases uncached_of_below hp hc hes with ⟨errors, herrors, hsub⟩
          exact ⟨errors, herrors, hsub hmem⟩

/-!
# Depth

How long the longest chain of effective dependencies is.
-/

def depth (ctx : Context) (id : ProjectId) : Nat :=
  ctx.fold (fun _ _ below => 1 + (below.map Prod.snd).foldr max 0) id

theorem le_foldr_max {n : Nat} {ns : List Nat} (h : n ∈ ns) : n ≤ ns.foldr max 0 := by
  induction ns with
  | nil =>
      cases h
  | cons m ns ih =>
      rw [List.foldr_cons]
      rcases List.mem_cons.mp h with rfl | h
      · omega
      · have hle := ih h
        omega

theorem depth_lt {ctx : Context} {id c : ProjectId}
    (h : c ∈ ctx.graph.effectiveDependencies id) : ctx.depth c < ctx.depth id := by
  have hmem : ctx.depth c ∈
      ((ctx.graph.effectiveDependencies id).map fun c => (c, ctx.depth c)).map Prod.snd := by
    simp only [List.map_map, List.mem_map]
    exact ⟨c, h, rfl⟩
  have hle := le_foldr_max hmem
  have heq : ctx.depth id = _ := ctx.fold_eq _ id
  rw [heq]
  simp only [depth] at hle ⊢
  omega

/-!
# What is hashed
-/

/-- The streams that are hashed for the fingerprint of a project. -/
inductive Hashes (ctx : Context) (environment : String) : ProjectId → List UInt8 → Prop where
  | own {id : ProjectId} {p : Project} {found : List (ProjectId × Fingerprint)}
      (hp : ctx.workspace.project? id = some p)
      (hfound : ctx.prints environment (ctx.graph.effectiveDependencies id) = .ok found) :
      Hashes ctx environment id (Stream.ofProject p environment found)
  | dependency {id c : ProjectId} {s : List UInt8} (hc : c ∈ ctx.graph.effectiveDependencies id)
      (hs : Hashes ctx environment c s) : Hashes ctx environment id s

/-- All lengths of a context fit into words. -/
structure Fits (ctx : Context) : Prop where
  projects : ∀ p ∈ ctx.workspace.projects, p.Fits
  nodes : ctx.graph.projectCount < Number.wordLimit

/-- What is hashed for the project is among some streams. -/
structure Covered (ctx : Context) (environment : String) (streams : Set (List UInt8))
    (id : ProjectId) : Prop where
  fits : ctx.Fits
  mem : ∀ s, ctx.Hashes environment id s → s ∈ streams

theorem Covered.below {ctx : Context} {environment : String} {streams : Set (List UInt8)}
    {id c : ProjectId} (h : ctx.Covered environment streams id)
    (hc : c ∈ ctx.graph.effectiveDependencies id) : ctx.Covered environment streams c :=
  ⟨h.fits, fun s hs => h.mem s (.dependency hc hs)⟩

/-!
# Fingerprints stand for builds
-/

theorem prints_eq_ok_iff {ctx : Context} {environment : String} {ids : List ProjectId}
    {found : List (ProjectId × Fingerprint)} :
    ctx.prints environment ids = .ok found ↔
      found.map Prod.fst = ids ∧ ∀ row ∈ found, ctx.print environment row.1 = .ok row.2 := by
  induction ids generalizing found with
  | nil =>
      cases found <;> simp [prints, allPrints]
  | cons c ids ih =>
      rw [prints_cons]
      cases hc : ctx.print environment c with
      | error e =>
          cases found with
          | nil => simp
          | cons row rest =>
              simp only [List.map_cons, List.cons.injEq, List.forall_mem_cons]
              constructor
              · intro h
                cases h
              · rintro ⟨⟨hid, _⟩, hrow, _⟩
                rw [hid, hc] at hrow
                cases hrow
      | ok f =>
          cases found with
          | nil =>
              cases ctx.prints environment ids <;> simp [Except.map]
          | cons row rest =>
              rcases row with ⟨id, g⟩
              have hiff : (Except.map ((c, f) :: ·) (ctx.prints environment ids) =
                    .ok ((id, g) :: rest)) ↔
                  (c, f) = (id, g) ∧ ctx.prints environment ids = .ok rest := by
                cases ctx.prints environment ids <;> simp [Except.map]
              simp only [hiff, ih, List.map_cons, List.cons.injEq, List.forall_mem_cons]
              constructor
              · rintro ⟨h, hids, hrest⟩
                cases h
                exact ⟨⟨rfl, hids⟩, hc, hrest⟩
              · rintro ⟨⟨hid, hids⟩, hrow, hrest⟩
                subst hid
                rw [hc] at hrow
                cases hrow
                exact ⟨rfl, hids, hrest⟩

theorem project?_mem {w : Workspace} {id : ProjectId} {p : Project}
    (h : w.project? id = some p) : p ∈ w.projects ∧ p.id = id :=
  ⟨List.mem_of_find?_eq_some h, by simpa using List.find?_some h⟩

/-- Without references each project is hashed for itself. -/
theorem hashes_ofWorkspace {session : SessionId} {w : Workspace} {environment : String}
    {id : ProjectId} {stream : List UInt8} (hw : ∀ p ∈ w.projects, p.references = [])
    (h : (ofWorkspace session w).Hashes environment id stream) :
    ∃ p ∈ w.projects, stream = Stream.ofProject p environment [] := by
  induction h with
  | own hp hfound =>
      rw [show (ofWorkspace session w).graph = Graph.build w from rfl,
        Graph.effectiveDependencies_build hw] at hfound
      cases hfound
      exact ⟨_, (project?_mem hp).left, rfl⟩
  | dependency _ _ ih => exact ih

/-- What a fingerprint was taken of. -/
theorem print_eq_ok_iff {ctx : Context} {environment : String} {id : ProjectId}
    {f : Fingerprint} :
    ctx.print environment id = .ok f ↔
      ∃ p found, ctx.workspace.project? id = some p ∧
        ctx.prints environment (ctx.graph.effectiveDependencies id) = .ok found ∧
        f = p.fingerprint environment found := by
  rw [print_eq]
  cases ctx.workspace.project? id with
  | none =>
      simp
  | some p =>
      cases ctx.prints environment (ctx.graph.effectiveDependencies id) with
      | error e => simp [Except.map]
      | ok found => simp [Except.map, eq_comm]

theorem fits_of_prints {ctx : Context} {environment : String} {id : ProjectId}
    {found : List (ProjectId × Fingerprint)} (hfits : ctx.Fits)
    (h : ctx.prints environment (ctx.graph.effectiveDependencies id) = .ok found) :
    ListFits (fun d => TextFits d.1.text) found := by
  rcases prints_eq_ok_iff.mp h with ⟨hids, hrows⟩
  constructor
  · have hlen : found.length = (ctx.graph.effectiveDependencies id).length := by
      rw [← hids, List.length_map]
    have hle : (ctx.graph.effectiveDependencies id).length ≤ ctx.graph.projectCount := by
      unfold Graph.effectiveDependencies Graph.dependencies
      refine Nat.le_trans (List.length_filter_le _ _) ?_
      refine Nat.le_trans (List.length_filter_le _ _) ?_
      rw [Graph.length_ids, Graph.projectCount]
    have hnodes := hfits.nodes
    omega
  · intro row hrow
    rcases print_eq_ok_iff.mp (hrows row hrow) with ⟨p, _, hp, _⟩
    rcases project?_mem hp with ⟨hmem, hid⟩
    exact hid ▸ (hfits.projects p hmem).id

/-- Equal fingerprints were taken of equal inputs. -/
theorem inputs_eq_of_print_eq {streams : Set (List UInt8)} {environment environment' : String}
    (hfree : streams.InjOn Fingerprint.ofStream) (henv : TextFits environment)
    (henv' : TextFits environment') {ctx ctx' : Context} {id id' : ProjectId} {f : Fingerprint}
    (hcov : ctx.Covered environment streams id)
    (hcov' : ctx'.Covered environment' streams id')
    (hf : ctx.print environment id = .ok f) (hf' : ctx'.print environment' id' = .ok f) :
    environment = environment' ∧ ∃ p found, ctx.workspace.project? id = some p ∧
      ctx'.workspace.project? id' = some p ∧
      ctx.prints environment (ctx.graph.effectiveDependencies id) = .ok found ∧
      ctx'.prints environment' (ctx'.graph.effectiveDependencies id') = .ok found := by
  rcases print_eq_ok_iff.mp hf with ⟨p, found, hp, hfound, rfl⟩
  rcases print_eq_ok_iff.mp hf' with ⟨p', found', hp', hfound', heq⟩
  have hstream : Stream.ofProject p environment found =
      Stream.ofProject p' environment' found' :=
    hfree (hcov.mem _ (.own hp hfound)) (hcov'.mem _ (.own hp' hfound')) heq
  have hinputs := (Stream.delimited_ofProject
    (a := (p, environment, found)) (c := (p', environment', found'))
    ⟨hcov.fits.projects p (project?_mem hp).left, henv, fits_of_prints hcov.fits hfound⟩
    ⟨hcov'.fits.projects p' (project?_mem hp').left, henv',
      fits_of_prints hcov'.fits hfound'⟩
    (congrArg (· ++ []) hstream)).left
  simp only [Prod.mk.injEq] at hinputs
  rcases hinputs with ⟨rfl, rfl, rfl⟩
  exact ⟨rfl, p, found, hp, hp', hfound, hfound'⟩

theorem fold_eq_of_print_eq {streams : Set (List UInt8)} {environment : String}
    (hfree : streams.InjOn Fingerprint.ofStream) (henv : TextFits environment)
    {ctx ctx' : Context} {id id' : ProjectId} {f : Fingerprint}
    (hcov : ctx.Covered environment streams id)
    (hcov' : ctx'.Covered environment streams id')
    (hf : ctx.print environment id = .ok f) (hf' : ctx'.print environment id' = .ok f) :
    id = id' ∧ ∀ {β : Type} (step : ProjectId → Option Project → List (ProjectId × β) → β),
      ctx.fold step id = ctx'.fold step id' := by
  induction id using ctx.graph.effective_induction generalizing id' f with
  | step id ih =>
      rcases inputs_eq_of_print_eq hfree henv henv hcov hcov' hf hf' with
        ⟨_, p, found, hp, hp', hfound, hfound'⟩
      have hid : id = id' := (project?_mem hp).right.symm.trans (project?_mem hp').right
      subst hid
      refine ⟨rfl, ?_⟩
      intro β step
      rcases prints_eq_ok_iff.mp hfound with ⟨hids, hrows⟩
      rcases prints_eq_ok_iff.mp hfound' with ⟨hids', hrows'⟩
      have hbelow : ∀ c ∈ ctx.graph.effectiveDependencies id,
          ctx.fold step c = ctx'.fold step c := by
        intro c hc
        rcases List.mem_map.mp (hids ▸ hc) with ⟨row, hrow, rfl⟩
        have hc' : row.1 ∈ ctx'.graph.effectiveDependencies id :=
          hids' ▸ List.mem_map.mpr ⟨row, hrow, rfl⟩
        exact (ih row.1 hc (hcov.below hc) (hcov'.below hc') (hrows row hrow)
          (hrows' row hrow)).right step
      rw [fold_eq, fold_eq, hp, hp', ← hids', hids]
      congr 1
      exact List.map_congr_left fun c hc => by rw [hbelow c hc]

end Context
end Ripple
