import Ripple.Cache.Tables
import Ripple.Proofs.Cache.Recursion
import Ripple.Proofs.Digest.Numbers
import Ripple.Proofs.Fingerprint.Changed

/-!
# How far a new content reaches

A new content of one document changes the fingerprint of its project and of all
that need it, and no other fingerprint. What is invalidated for the change covers
these; it is more only where there are cycles.
-/

namespace Ripple

/-!
# What is invalidated
-/

namespace Graph

theorem reaches_dependents_of_needs {g : Graph} {q id : ProjectId} (h : g.Needs q id) :
    Reaches g.dependents id q := by
  apply reaches_dependents_of_reaches
  exact Relation.ReflTransGen.mono (fun _ _ hc => mem_dependencies_of_effective hc) _ _ h

/-- Only a project of the graph is needed by others. -/
theorem Needs.eq_or_mem_ids {g : Graph} {q id : ProjectId} (h : g.Needs q id) :
    q = id ∨ id ∈ g.ids := by
  rcases Relation.ReflTransGen.cases_tail h with rfl | ⟨other, _, hid⟩
  · exact Or.inl rfl
  · exact Or.inr (mem_ids_of_effective hid)

/-- Only a project of the graph needs others. -/
theorem Needs.eq_or_exists {w : Workspace} {q id : ProjectId} (h : (build w).Needs q id) :
    q = id ∨ ∃ p ∈ w.projects, p.id = q := by
  rcases Relation.ReflTransGen.cases_head h with rfl | ⟨other, hother, _⟩
  · exact Or.inl rfl
  · have href := mem_dependencies_build.mp (mem_dependencies_of_effective hother)
    exact Or.inr (mem_validIds.mp href.left).left

theorem mem_affectedBy {g : Graph} {q id : ProjectId} :
    q ∈ Cache.Tables.affectedBy g id ↔ q ∈ g.withDependents id ∨ id ∉ g.ids ∧ q = id := by
  unfold Cache.Tables.affectedBy
  by_cases hid : id ∈ g.ids
  · have hself := self_mem_withDependents hid
    cases hbelow : g.withDependents id with
    | nil =>
        rw [hbelow] at hself
        cases hself
    | cons first rest => simp [hid]
  · have hnone : g.withDependents id = [] := by
      rw [List.eq_nil_iff_forall_not_mem]
      intro other hother
      exact hid (mem_ids_iff_contains.mpr (mem_withDependents.mp hother).left)
    simp [hnone, hid]

theorem mem_affectedBy_of_needs {g : Graph} {q id : ProjectId} (h : g.Needs q id) :
    q ∈ Cache.Tables.affectedBy g id := by
  rw [mem_affectedBy]
  by_cases hid : id ∈ g.ids
  · exact Or.inl (mem_withDependents.mpr
      ⟨mem_ids_iff_contains.mp hid, reaches_dependents_of_needs h⟩)
  · exact Or.inr ⟨hid, h.eq_or_mem_ids.resolve_right hid⟩

/-- Without cycles nothing else is invalidated. -/
theorem mem_affectedBy_iff_needs {w : Workspace} {q id : ProjectId}
    (hacyclic : ∀ id, ¬ Relation.TransGen (Refers w) id id) :
    q ∈ Cache.Tables.affectedBy (build w) id ↔ (build w).Needs q id := by
  constructor
  · intro h
    rcases mem_affectedBy.mp h with h | ⟨_, rfl⟩
    · refine Relation.ReflTransGen.mono (fun a c href => ?_) _ _ (mem_withDependents_build.mp h).right
      rw [effectiveDependencies_of_acyclic hacyclic]
      exact mem_dependencies_build.mpr href
    · exact .refl
  · exact mem_affectedBy_of_needs

end Graph

/-!
# What changes
-/

namespace Context

variable {session : SessionId} {environment : String} {w : Workspace} {path : Path}
  {p : Project} {d : Document} {front back : List Project} {before after : List Document}

/-- In its own context every project has a fingerprint. -/
theorem exists_print (session : SessionId) (environment : String) {id : ProjectId}
    (h : ∃ q, w.project? id = some q) :
    ∃ f, (ofWorkspace session w).print environment id = .ok f := by
  cases hprint : (ofWorkspace session w).print environment id with
  | ok f => exact ⟨f, rfl⟩
  | error e =>
      rw [← fingerprint_eq_print] at hprint
      rcases h with ⟨q, hq⟩
      rw [(fingerprint_ofWorkspace_error_iff.mp hprint).left] at hq
      cases hq

/-- The streams that are hashed in a context, for any project. -/
def hashed (ctx : Context) (environment : String) : Set (List UInt8) :=
  {stream | ∃ id, ctx.Hashes environment id stream}

variable (h : w.Stands path p d front back before after) (text : String)
include h

/-- What does not need the project keeps its fingerprint. -/
theorem print_renewed {id : ProjectId} (hneeds : ¬ (Graph.build w).Needs id p.id) :
    (ofWorkspace session (h.renewed text)).print environment id =
      (ofWorkspace session w).print environment id := by
  refine fold_congr (P := fun id => ¬ (Graph.build w).Needs id p.id) (h.build_renewed text)
    ?_ ?_ (printStep environment) hneeds
  · intro id c hid hc hneeds
    exact hid (.head hc hneeds)
  · intro id hid
    apply h.project?_renewed_of_ne
    rintro rfl
    exact hid .refl

/-- What needs the project gets another fingerprint, as long as no streams collide. -/
theorem print_renewed_ne (hfirst : w.project? p.id = some p) (htext : text ≠ d.content)
    (hfree : Set.InjOn Fingerprint.ofStream ((ofWorkspace session w).hashed environment ∪
      (ofWorkspace session (h.renewed text)).hashed environment))
    {id : ProjectId} (hneeds : (Graph.build w).Needs id p.id) {f f' : Fingerprint}
    (hf : (ofWorkspace session w).print environment id = .ok f)
    (hf' : (ofWorkspace session (h.renewed text)).print environment id = .ok f') : f' ≠ f := by
  induction hneeds using Relation.ReflTransGen.head_induction_on generalizing f f' with
  | refl =>
      rcases print_eq_ok_iff.mp hf with ⟨q, found, hq, hfound, rfl⟩
      rcases print_eq_ok_iff.mp hf' with ⟨q', found', hq', hfound', rfl⟩
      have hsame : q = p := Option.some.inj (hq.symm.trans hfirst)
      have hsame' : q' = p.renewed d before after text :=
        Option.some.inj (hq'.symm.trans (h.project?_renewed_self text hfirst))
      subst hsame hsame'
      intro heq
      have hstream := hfree (Or.inr ⟨_, .own hq' hfound'⟩) (Or.inl ⟨_, .own hq hfound⟩) heq
      have hids : found.map Prod.fst = found'.map Prod.fst := by
        rw [(prints_eq_ok_iff.mp hfound).left, (prints_eq_ok_iff.mp hfound').left]
        exact congrArg (fun g => Graph.effectiveDependencies g _) (h.build_renewed text).symm
      exact htext (Stream.content_eq_of_ofProject_eq h.documents hids hstream.symm).symm
  | @head id c hc hrest ih =>
      rcases print_eq_ok_iff.mp hf with ⟨q, found, hq, hfound, rfl⟩
      rcases print_eq_ok_iff.mp hf' with ⟨q', found', hq', hfound', rfl⟩
      have hid : id ≠ p.id := by
        rintro rfl
        exact Graph.acyclic_effective _ _ (Relation.TransGen.head' hc hrest)
      have hkept : w.project? id = some q' := (h.project?_renewed_of_ne text hid).symm.trans hq'
      have hsame : q' = q := Option.some.inj (hkept.symm.trans hq)
      subst hsame
      intro heq
      have hstream := hfree (Or.inr ⟨_, .own hq' hfound'⟩) (Or.inl ⟨_, .own hq hfound⟩) heq
      rcases prints_eq_ok_iff.mp hfound with ⟨hids, hrows⟩
      rcases prints_eq_ok_iff.mp hfound' with ⟨hids', hrows'⟩
      have hboth : found'.map Prod.fst = found.map Prod.fst := by
        rw [hids, hids']
        exact congrArg (fun g => Graph.effectiveDependencies g _) (h.build_renewed text)
      have hfounds := Stream.found_eq_of_ofProject_eq hboth hstream
      subst hfounds
      -- the dependency that needs the project has kept its fingerprint
      have hrow : c ∈ found'.map Prod.fst := by
        rw [hids]
        exact hc
      rcases List.mem_map.mp hrow with ⟨row, hmem, rfl⟩
      exact ih (hrows row hmem) (hrows' row hmem) rfl

theorem exists_project?_renewed (hfirst : w.project? p.id = some p) {id : ProjectId}
    (hid : ∃ q, w.project? id = some q) : ∃ q, (h.renewed text).project? id = some q := by
  by_cases hsame : id = p.id
  · subst hsame
    exact ⟨_, h.project?_renewed_self text hfirst⟩
  · rw [h.project?_renewed_of_ne text hsame]
    exact hid

/-- The two fingerprints of a project differ exactly if it needs the changed one. -/
theorem exists_fingerprints (hfirst : w.project? p.id = some p) (htext : text ≠ d.content)
    (hfree : Set.InjOn Fingerprint.ofStream ((ofWorkspace session w).hashed environment ∪
      (ofWorkspace session (h.renewed text)).hashed environment))
    {id : ProjectId} (hid : ∃ q, w.project? id = some q) :
    ∃ f f', (ofWorkspace session w).fingerprint environment id = .ok f ∧
      (ofWorkspace session (h.renewed text)).fingerprint environment id = .ok f' ∧
      (f' ≠ f ↔ (Graph.build w).Needs id p.id) := by
  rcases exists_print session environment hid with ⟨f, hf⟩
  rcases exists_print session environment (exists_project?_renewed h text hfirst hid) with
    ⟨f', hf'⟩
  refine ⟨f, f', ?_, ?_, ?_, ?_⟩
  · rw [fingerprint_eq_print, hf]
  · rw [fingerprint_eq_print, hf']
  · intro hne
    by_contra hneeds
    rw [print_renewed h text hneeds, hf] at hf'
    exact hne (Except.ok.inj hf').symm
  · intro hneeds
    exact print_renewed_ne h text hfirst htext hfree hneeds hf hf'

end Context

/-!
# The radius of a change
-/

namespace Workspace

/-- A change between two workspaces that reaches what needs the project. -/
structure Radius (session : SessionId) (environment : String) (w w' : Workspace)
    (id : ProjectId) : Prop where
  changed_iff : ∀ q ∈ w.projects, ∃ f f',
    (Context.ofWorkspace session w).fingerprint environment q.id = .ok f ∧
    (Context.ofWorkspace session w').fingerprint environment q.id = .ok f' ∧
    (f' ≠ f ↔ (Graph.build w).Needs q.id id)
  invalidated : ∀ q ∈ w.projects,
    (Context.ofWorkspace session w').fingerprint environment q.id ≠
      (Context.ofWorkspace session w).fingerprint environment q.id →
    q.id ∈ Cache.Tables.affectedBy (.build w) id
  exactly : (∀ other, ¬ Relation.TransGen (Graph.Refers w) other other) → ∀ other,
    other ∈ Cache.Tables.affectedBy (.build w) id ↔ ∃ q ∈ w.projects, q.id = other ∧
      (Context.ofWorkspace session w').fingerprint environment q.id ≠
        (Context.ofWorkspace session w).fingerprint environment q.id

/-- All projects whose fingerprints a new content changes, and what is invalidated
for it. -/
theorem content_radius (session : SessionId) (environment : String) {w : Workspace} {path : Path}
    {p : Project} {d : Document} {text : String} (hfound : w.document? path = some (p, d))
    (hfirst : w.project? p.id = some p) (htext : text ≠ d.content) :
    ∃ w', w.setContent? path text = some w' ∧
      (Set.InjOn Fingerprint.ofStream ((Context.ofWorkspace session w).hashed environment ∪
          (Context.ofWorkspace session w').hashed environment) →
        Radius session environment w w' p.id) := by
  rcases document?_eq_some_iff.mp hfound with ⟨front, back, before, after, h⟩
  refine ⟨h.renewed text, h.setContent? text, fun hfree => ?_⟩
  have hchanged : ∀ q ∈ w.projects, ∃ f f',
      (Context.ofWorkspace session w).fingerprint environment q.id = .ok f ∧
      (Context.ofWorkspace session (h.renewed text)).fingerprint environment q.id = .ok f' ∧
      (f' ≠ f ↔ (Graph.build w).Needs q.id p.id) := by
    intro q hq
    apply Context.exists_fingerprints h text hfirst htext hfree
    rw [← Option.isSome_iff_exists, project?, List.find?_isSome]
    exact ⟨q, hq, decide_eq_true rfl⟩
  have hneeds : ∀ q ∈ w.projects,
      (Context.ofWorkspace session (h.renewed text)).fingerprint environment q.id ≠
        (Context.ofWorkspace session w).fingerprint environment q.id ↔
      (Graph.build w).Needs q.id p.id := by
    intro q hq
    rcases hchanged q hq with ⟨f, f', hf, hf', hiff⟩
    rw [hf, hf', ← hiff, ne_eq, ne_eq, Except.ok.injEq]
  constructor
  · exact hchanged
  · intro q hq hne
    exact Graph.mem_affectedBy_of_needs ((hneeds q hq).mp hne)
  · intro hacyclic other
    rw [Graph.mem_affectedBy_iff_needs hacyclic]
    constructor
    · intro hother
      have hproject : ∃ q ∈ w.projects, q.id = other := by
        rcases Graph.Needs.eq_or_exists hother with rfl | hq
        · exact ⟨p, (mem_documents_of_document? hfound).left, rfl⟩
        · exact hq
      rcases hproject with ⟨q, hq, rfl⟩
      exact ⟨q, hq, rfl, (hneeds q hq).mpr hother⟩
    · rintro ⟨q, hq, rfl, hne⟩
      exact (hneeds q hq).mp hne

/-!
# A project and one that refers to it
-/

def referred (text : String) : Project :=
  ⟨⟨"a"⟩, "", [⟨⟨"/a"⟩, text⟩], [], [], .empty⟩

def referring : Project :=
  ⟨⟨"b"⟩, "", [], [⟨"a"⟩], [], .empty⟩

def pair (text : String) : Workspace :=
  ⟨⟨"/"⟩, [referred text, referring]⟩

theorem build_pair (text : String) : Graph.build (pair text) = .build (pair "") :=
  Graph.build_congr rfl

theorem effectiveDependencies_pair (text : String) :
    (Graph.build (pair text)).effectiveDependencies ⟨"a"⟩ = [] ∧
      (Graph.build (pair text)).effectiveDependencies ⟨"b"⟩ = [⟨"a"⟩] := by
  rw [build_pair]
  decide +kernel

theorem print_pair (session : SessionId) (text : String) :
    (Context.ofWorkspace session (pair text)).print "" ⟨"a"⟩ =
      .ok ((referred text).fingerprint "" []) := by
  rw [Context.print_eq]
  simp only [Context.ofWorkspace, (effectiveDependencies_pair text).left]
  rfl

/-- The two streams that are hashed. -/
theorem hashes_pair {session : SessionId} {text : String} {id : ProjectId} {stream : List UInt8}
    (h : (Context.ofWorkspace session (pair text)).Hashes "" id stream) :
    stream = Stream.ofProject (referred text) "" [] ∨
      stream = Stream.ofProject referring "" [(⟨"a"⟩, (referred text).fingerprint "" [])] := by
  induction h with
  | dependency _ _ ih => exact ih
  | @own id q found hq hfound =>
      rcases Context.project?_mem hq with ⟨hmem, rfl⟩
      rcases List.mem_cons.mp hmem with rfl | hmem
      · change (Context.ofWorkspace session (pair text)).prints ""
          ((Graph.build (pair text)).effectiveDependencies ⟨"a"⟩) = .ok found at hfound
        rw [(effectiveDependencies_pair text).left] at hfound
        cases hfound
        exact Or.inl rfl
      · rw [List.mem_singleton.mp hmem] at hfound ⊢
        change (Context.ofWorkspace session (pair text)).prints ""
          ((Graph.build (pair text)).effectiveDependencies ⟨"b"⟩) = .ok found at hfound
        rw [(effectiveDependencies_pair text).right, Context.prints_cons, print_pair] at hfound
        cases hfound
        exact Or.inr rfl

def pairStreams : List (List UInt8) :=
  ["x", "y"].flatMap fun text =>
    [Stream.ofProject (referred text) "" [],
      Stream.ofProject referring "" [(⟨"a"⟩, (referred text).fingerprint "" [])]]

theorem nodup_pairStreams : (pairStreams.map Fingerprint.ofStream).Nodup := by
  unfold pairStreams Project.fingerprint
  rw [Fingerprint.ofStream_eq]
  decide +kernel

theorem acyclic_pair (id : ProjectId) :
    ¬ Relation.TransGen (Graph.Refers (pair "x")) id id := by
  have hends {a c : ProjectId} (h : Graph.Refers (pair "x") a c) : a = ⟨"b"⟩ ∧ c = ⟨"a"⟩ := by
    rcases h with ⟨_, _, _, p, hp, hc⟩
    rcases Context.project?_mem hp with ⟨hmem, rfl⟩
    simp only [pair, List.mem_cons, List.not_mem_nil, or_false] at hmem
    rcases hmem with rfl | rfl
    · cases hc
    · exact ⟨rfl, List.mem_singleton.mp hc⟩
  intro h
  rcases Relation.TransGen.head'_iff.mp h with ⟨_, hfirst, _⟩
  rcases Relation.TransGen.tail'_iff.mp h with ⟨_, _, hlast⟩
  have hb := (hends hfirst).left
  rw [(hends hlast).right] at hb
  exact absurd hb (by decide)

/-- The content of the one document reaches both projects. -/
theorem content_radius_pair : ∃ w', (pair "x").setContent? ⟨"/a"⟩ "y" = some w' ∧
    Radius ⟨"s"⟩ "" (pair "x") w' ⟨"a"⟩ ∧
    ∀ id ∈ [⟨"a"⟩, ⟨"b"⟩],
      id ∈ Cache.Tables.affectedBy (.build (pair "x")) ⟨"a"⟩ ∧
      (Context.ofWorkspace ⟨"s"⟩ w').fingerprint "" id ≠
        (Context.ofWorkspace ⟨"s"⟩ (pair "x")).fingerprint "" id := by
  have hfound : (pair "x").document? ⟨"/a"⟩ = some (referred "x", ⟨⟨"/a"⟩, "x"⟩) := by
    decide +kernel
  have hfirst : (pair "x").project? ⟨"a"⟩ = some (referred "x") := by decide +kernel
  have htext : "y" ≠ "x" := by decide
  rcases content_radius ⟨"s"⟩ "" hfound hfirst htext with ⟨w', hw', hradius⟩
  have heq : w' = pair "y" := Option.some.inj (hw'.symm.trans (by decide +kernel))
  subst heq
  have hfree : Set.InjOn Fingerprint.ofStream
      ((Context.ofWorkspace ⟨"s"⟩ (pair "x")).hashed "" ∪
        (Context.ofWorkspace ⟨"s"⟩ (pair "y")).hashed "") := by
    have hmem {stream : List UInt8} (h : stream ∈
        (Context.ofWorkspace ⟨"s"⟩ (pair "x")).hashed "" ∪
          (Context.ofWorkspace ⟨"s"⟩ (pair "y")).hashed "") : stream ∈ pairStreams := by
      rcases h with ⟨_, h⟩ | ⟨_, h⟩ <;>
        rcases hashes_pair h with rfl | rfl <;> simp [pairStreams]
    intro stream hstream other hother
    exact List.inj_on_of_nodup_map nodup_pairStreams (hmem hstream) (hmem hother)
  have h := hradius hfree
  refine ⟨_, hw', h, fun id hid => ?_⟩
  have hdown : id ∈ Cache.Tables.affectedBy (.build (pair "x")) ⟨"a"⟩ := by
    revert id
    decide +kernel
  rcases (h.exactly acyclic_pair id).mp hdown with ⟨q, _, rfl, hne⟩
  exact ⟨hdown, hne⟩

end Workspace
end Ripple
