import Ripple.Proofs.Cache.Accounts
import Ripple.Proofs.Cache.Errands
import Ripple.Proofs.Cache.Flawless
import Ripple.Proofs.Cache.Script
import Ripple.Proofs.Graph.Breadth

/-!
# What a speculative build compiles

Overrides affect a project if a project with an overridden document is upstream of it. A
speculative build compiles the affected projects upstream of its target with the overridden
texts, each of them once, and keeps what comes of this to itself. For all other projects
upstream it makes requests like any other client, and what it leaves in the cache is what
these requests leave there.
-/

namespace Ripple

/-!
# Affected projects
-/

namespace Graph

theorem withDependencies_trans {g : Graph} {a c d : ProjectId} (hc : c ∈ g.withDependencies a)
    (hd : d ∈ g.withDependencies c) : d ∈ g.withDependencies a := by
  rcases mem_withDependencies.mp hc with ⟨hcontains, hreach⟩
  exact mem_withDependencies.mpr ⟨hcontains, hreach.trans (mem_withDependencies.mp hd).right⟩

theorem mem_withDependencies_of_effective {g : Graph} {a c : ProjectId}
    (hc : c ∈ g.effectiveDependencies a) : c ∈ g.withDependencies a :=
  have hdep := mem_dependencies_of_effective hc
  mem_withDependencies.mpr ⟨mem_ids_iff_contains.mp (mem_ids_of_mem_dependents c a
    (mem_dependents_of_mem_dependencies hdep)), .single hdep⟩

theorem mem_ids_of_withDependencies {g : Graph} {a c : ProjectId}
    (h : c ∈ g.withDependencies a) : c ∈ g.ids := by
  rcases mem_withDependencies.mp h with ⟨hcontains, hreach⟩
  cases hreach with
  | refl => exact mem_ids_iff_contains.mpr hcontains
  | tail _ hlast => exact mem_ids_of_mem_dependencies _ _ hlast

end Graph

namespace Workspace

variable {w : Workspace} {overrides : Overrides} {target id c : ProjectId}

/-- A project with an overridden document is upstream of the project, or it is this one. -/
def Affected (w : Workspace) (overrides : Overrides) (id : ProjectId) : Prop :=
  ∃ p ∈ w.projects, p.isTouchedBy overrides ∧ p.id ∈ (Graph.build w).withDependencies id

theorem Affected.upstream (h : w.Affected overrides c)
    (hc : c ∈ (Graph.build w).withDependencies id) : w.Affected overrides id := by
  rcases h with ⟨p, hp, htouched, hmem⟩
  exact ⟨p, hp, htouched, Graph.withDependencies_trans hc hmem⟩

/-- The project is upstream of the target, and the overrides do not affect it. -/
structure Unaffected (w : Workspace) (overrides : Overrides) (target id : ProjectId) : Prop where
  upstream : id ∈ (Graph.build w).withDependencies target
  apart : ¬ w.Affected overrides id

theorem Unaffected.below (h : w.Unaffected overrides target id)
    (hc : c ∈ (Graph.build w).effectiveDependencies id) : w.Unaffected overrides target c :=
  have hmem := Graph.mem_withDependencies_of_effective hc
  ⟨Graph.withDependencies_trans h.upstream hmem, fun hc => h.apart (hc.upstream hmem)⟩

end Workspace

/-- The unit is that of a project with the overridden texts. -/
def CompileUnit.IsOverridden {π : Type} (w : Workspace) (overrides : Overrides)
    (u : CompileUnit π) : Prop :=
  ∃ p references, w.project? u.project = some p ∧ u = .ofProject (p.override overrides) references

namespace Cache

variable {π α β : Type}

/-!
# Plans
-/

namespace Plan

variable {session : SessionId} {w : Workspace} {overrides : Overrides} {target id : ProjectId}

theorem mem_reached_iff_affected :
    id ∈ reached (.ofWorkspace session w) overrides ↔ w.Affected overrides id := by
  rw [mem_reached]
  refine exists_congr fun p => and_congr_right fun _ => and_congr_right fun _ => ?_
  exact Graph.mem_withDependents_iff_mem_withDependencies

theorem mem_rebuilt_iff_affected :
    id ∈ rebuilt (.ofWorkspace session w) overrides target ↔
      id ∈ (Graph.build w).withDependencies target ∧ w.Affected overrides id := by
  rw [mem_rebuilt]
  refine (and_iff_right_of_imp fun h => mem_ids_of_reached h.right).trans ?_
  rw [mem_reached_iff_affected]
  rfl

/-- If no touched project is upstream of the target then nothing is rebuilt. -/
theorem rebuilt_eq_nil (h : ¬ w.Affected overrides target) :
    rebuilt (.ofWorkspace session w) overrides target = [] := by
  refine List.eq_nil_iff_forall_not_mem.mpr fun id hid => ?_
  rcases mem_rebuilt_iff_affected.mp hid with ⟨hmem, haffected⟩
  exact h (haffected.upstream hmem)

theorem nodup_rebuilt (ctx : Context) (overrides : Overrides) (target : ProjectId) :
    (rebuilt ctx overrides target).Nodup :=
  (Graph.nodup_topologicalOrder ctx.graph).filter _

/-- The plan compiles the projects that are left, in order and with the overridden texts. It
asks for artifacts of some projects only, and it lists nothing. Requests and compiles are
taken to succeed. -/
def Rebuilds (ctx : Context) (overrides : Overrides) (asks : ProjectId → Prop)
    (Q : List ProjectId → α → Prop) : Plan π α → List ProjectId → Prop
  | .done a, left => Q left a
  | .request ctx' id next, left =>
      ctx' = ctx ∧ asks id ∧ ∀ found, (next (.ok found)).Rebuilds ctx overrides asks Q left
  | .compile u next, left =>
      ∃ rest, left = u.project :: rest ∧ u.IsOverridden ctx.workspace overrides ∧
        ∀ a, (next (.ok a)).Rebuilds ctx overrides asks Q rest
  | .consult _ _, _ | .file _ _ _ _, _ => False

/-- There is a result. -/
def Succeeds (Q : List ProjectId → α → Prop) (left : List ProjectId)
    (result : Except Error α) : Prop :=
  ∃ a, result = .ok a ∧ Q left a

section

variable {ctx : Context} {asks : ProjectId → Prop} {Q : List ProjectId → α → Prop}
  {left : List ProjectId}

theorem rebuilds_bind {Q' : List ProjectId → β → Prop} {plan : Plan π α} {k : α → Plan π β}
    (h : plan.Rebuilds ctx overrides asks Q left)
    (hk : ∀ left a, Q left a → (k a).Rebuilds ctx overrides asks Q' left) :
    (plan.bind k).Rebuilds ctx overrides asks Q' left := by
  induction plan generalizing left with
  | done a => exact hk left a h
  | request ctx' id next ih =>
      exact ⟨h.left, h.right.left, fun found => ih _ (h.right.right found)⟩
  | compile u next ih =>
      rcases h with ⟨rest, hleft, hunit, hnext⟩
      exact ⟨rest, hleft, hunit, fun a => ih _ (hnext a)⟩
  | consult key next ih => exact h.elim
  | file key f ds next ih => exact h.elim

theorem rebuilds_attempt_bind {Q' : List ProjectId → Except Error β → Prop}
    {plan : Attempt π α} {k : α → Attempt π β}
    (h : Rebuilds ctx overrides asks (Succeeds Q) plan.run left)
    (hk : ∀ left a, Q left a → Rebuilds ctx overrides asks Q' (k a).run left) :
    Rebuilds ctx overrides asks Q' (plan >>= k).run left := by
  refine rebuilds_bind h ?_
  rintro left _ ⟨a, rfl, ha⟩
  exact hk left a ha

theorem rebuilds_getOrCreate (hid : asks id) :
    Rebuilds ctx overrides asks (Succeeds fun rest _ => rest = left)
      (getOrCreate (π := π) ctx id).run left :=
  ⟨rfl, hid, fun found => ⟨found.artifact, rfl, rfl⟩⟩

theorem rebuilds_references {built : Built π} {ids : List ProjectId}
    (hids : ∀ c ∈ ids, built.get? c = none → asks c) :
    Rebuilds ctx overrides asks (Succeeds fun rest _ => rest = left)
      (references ctx built ids).run left := by
  induction ids with
  | nil => exact ⟨[], rfl, rfl⟩
  | cons c ids ih =>
      rw [List.forall_mem_cons] at hids
      rw [references_cons]
      refine rebuilds_attempt_bind (Q := fun rest _ => rest = left) ?_ ?_
      · unfold reference
        cases hget : built.get? c with
        | some a => exact ⟨a, rfl, rfl⟩
        | none => exact rebuilds_getOrCreate (hids.left hget)
      · rintro _ a rfl
        refine rebuilds_attempt_bind (ih hids.right) ?_
        rintro _ more rfl
        exact ⟨a :: more, rfl, rfl⟩

end

/-- All projects are rebuilt, against those that have been rebuilt and unaffected ones. -/
theorem rebuilds_rebuild {built : Built π} {before ids : List ProjectId}
    (hsplit : rebuilt (.ofWorkspace session w) overrides target = before ++ ids)
    (hdone : ∀ c ∈ before, built.get? c ≠ none) :
    Rebuilds (.ofWorkspace session w) overrides (w.Unaffected overrides target)
      (Succeeds fun left built' => left = [] ∧
        ∀ c ∈ rebuilt (.ofWorkspace session w) overrides target, built'.get? c ≠ none)
      (rebuild (.ofWorkspace session w) overrides built ids).run ids := by
  induction ids generalizing before built with
  | nil =>
      rw [List.append_nil] at hsplit
      exact ⟨built, rfl, rfl, hsplit ▸ hdone⟩
  | cons id ids ih =>
      have hid : id ∈ rebuilt (.ofWorkspace session w) overrides target := by
        rw [hsplit]
        exact List.mem_append_right _ List.mem_cons_self
      have hmem := (mem_rebuilt_iff_affected.mp hid).left
      rcases Context.complete_ofWorkspace session w id (mem_rebuilt.mp hid).left with ⟨p, hp⟩
      have hpid := (Context.project?_mem hp).right
      unfold rebuild
      simp only [hp]
      refine rebuilds_attempt_bind (rebuilds_references ?_) ?_
      · intro c hc hnone
        have hupstream := Graph.mem_withDependencies_of_effective hc
        refine ⟨Graph.withDependencies_trans hmem hupstream, fun haffected => ?_⟩
        exact hdone c
          (mem_before_of_rebuilt hsplit hc (mem_reached_iff_affected.mpr haffected)) hnone
      · rintro _ found rfl
        let u : CompileUnit π := .ofProject (p.override overrides) (found.map Held.value)
        have hu : u.project = id := hpid
        have hunit : u.IsOverridden w overrides := ⟨p, _, hu ▸ hp, rfl⟩
        refine rebuilds_attempt_bind (Q := fun left _ => left = ids) ?_ ?_
        · exact ⟨ids, by rw [hu], hunit, fun a => ⟨a, rfl, rfl⟩⟩
        · rintro left a rfl
          have hsplit' : rebuilt (.ofWorkspace session w) overrides target =
              (before ++ [id]) ++ left := by
            rw [hsplit, List.append_assoc]
            rfl
          exact ih hsplit' (get?_insert_ne_none hdone)

theorem rebuilds_speculate (htarget : target ∈ (Graph.build w).ids) :
    Rebuilds (.ofWorkspace session w) overrides (w.Unaffected overrides target)
      (Succeeds fun left _ => left = [])
      (speculate (π := π) (.ofWorkspace session w) target overrides).run
      (rebuilt (.ofWorkspace session w) overrides target) := by
  rcases Context.complete_ofWorkspace session w target htarget with ⟨p, hp⟩
  unfold speculate
  simp only [hp]
  by_cases hreached : target ∈ reached (.ofWorkspace session w) overrides
  · rw [if_pos hreached]
    refine rebuilds_attempt_bind (rebuilds_rebuild (List.nil_append _).symm ?_) ?_
    · exact fun _ hc => absurd hc List.not_mem_nil
    rintro left built ⟨rfl, hall⟩
    rcases Option.ne_none_iff_exists'.mp (hall target (self_mem_rebuilt hreached)) with ⟨a, ha⟩
    simp only [ha]
    exact ⟨a, rfl, rfl⟩
  · rw [if_neg hreached]
    have hnot := mem_reached_iff_affected.not.mp hreached
    rw [rebuilt_eq_nil hnot]
    refine rebuilds_getOrCreate ⟨Graph.mem_withDependencies.mpr ?_, hnot⟩
    exact ⟨Graph.mem_ids_iff_contains.mp htarget, .refl⟩

end Plan

/-- What the client still has to do is to rebuild the projects that are left. -/
def ClientStage.Rebuilds (ctx : Context) (overrides : Overrides) (asks : ProjectId → Prop)
    (Q : List ProjectId → Reply π → Prop) (left : List ProjectId) : ClientStage π → Prop
  | .following plan => plan.Rebuilds ctx overrides asks Q left
  | .requesting r next => r.context = ctx ∧ asks r.project ∧
      (∀ e, r.stage ≠ .settled (.error e)) ∧
        ∀ found, (next (.ok found)).Rebuilds ctx overrides asks Q left
  | .compiling _ next => ∀ a, (next (.ok a)).Rebuilds ctx overrides asks Q left
  | .returned reply => Q left reply
  | .panicked => False
  | .cancelled => True

namespace ClientStage

variable {b : Backend π} {ctx : Context} {overrides : Overrides} {asks : ProjectId → Prop}
  {Q : List ProjectId → Reply π → Prop} {left : List ProjectId} {s s' : Schedule π}
  {stage stage' : ClientStage π}

/-- A move of a client that rebuilds calls the backend for the next project at most. -/
theorem Rebuilds.of_moves (h : stage.Rebuilds ctx overrides asks Q left)
    (hcompiles : ∀ u, ∃ a, b.compile u = .compiled a)
    (hprint : ∀ id, asks id → ∃ f, ctx.print b.environment id = .ok f)
    (hanswers : ∀ r next result, stage = .requesting r next →
      r.result? s.machine = some result → ∃ found, result = .ok found)
    (hmove : stage.Moves b s stage' s') :
    ∃ units rest, left = units.map CompileUnit.project ++ rest ∧
      stage'.Rebuilds ctx overrides asks Q rest ∧
      s'.machine.calls = s.machine.calls ++ units ∧
      ∀ u ∈ units, u.IsOverridden ctx.workspace overrides := by
  have hnone (hstage' : stage'.Rebuilds ctx overrides asks Q left)
      (hcalls : s'.machine.calls = s.machine.calls) :
      ∃ units rest, left = units.map CompileUnit.project ++ rest ∧
        stage'.Rebuilds ctx overrides asks Q rest ∧
        s'.machine.calls = s.machine.calls ++ units ∧
        ∀ u ∈ units, u.IsOverridden ctx.workspace overrides :=
    ⟨[], left, rfl, hstage', by rw [hcalls, List.append_nil], nofun⟩
  cases hmove with
  | asks => exact hnone ⟨h.left, h.right.left, nofun, h.right.right⟩ rfl
  | @goesOn _ r next hactive =>
      rcases h with ⟨rfl, hid, hunrefused, hnext⟩
      have hrequest := Request.moves_of_step b.environment s.machine hactive
      rcases hrequest.context_eq with ⟨hctx, hid'⟩
      refine hnone ⟨hctx, hid' ▸ hid, ?_, hnext⟩ (Request.calls_of_moves hrequest)
      exact Request.not_refused_of_moves hrequest (hprint _ hid) hunrefused
  | hears hresult =>
      rcases hanswers _ _ _ rfl hresult with ⟨found, rfl⟩
      exact hnone (h.right.right.right found) rfl
  | @compiles _ u next =>
      rcases h with ⟨rest, hleft, hunit, hnext⟩
      refine ⟨[u], rest, hleft, hnext, rfl, fun u' hu' => ?_⟩
      rw [List.mem_singleton.mp hu']
      exact hunit
  | @receives _ _ u next result hanswer =>
      rcases hcompiles u with ⟨a, ha⟩
      simp only [Schedule.answer, ha, Option.some.injEq, Prod.mk.injEq] at hanswer
      rcases hanswer with ⟨rfl, rfl⟩
      exact hnone (h _) rfl
  | @panics _ u next hanswer =>
      rcases hcompiles u with ⟨a, ha⟩
      simp [Schedule.answer, ha] at hanswer
  | consults => exact h.elim
  | files => exact h.elim
  | returns => exact hnone h rfl

end ClientStage

/-!
# The errand of a speculative build
-/

namespace Errand

variable {b : Backend π} {allowed : Set Upkeep} {settings : CacheSettings} {session : SessionId}
  {ws : Workspace} {overrides : Overrides} {target : ProjectId} {place : Nat} {e e' : Errand π}
  {w : World π}

/-- The project is unaffected, and it is asked for in the context of the build. -/
def AsksApart (session : SessionId) (ws : Workspace) (overrides : Overrides)
    (target : ProjectId) (ctx : Context) (id : ProjectId) : Prop :=
  ctx = .ofWorkspace session ws ∧ ws.Unaffected overrides target id

/-- The client has rebuilt all affected projects but those that are left. -/
structure Sound (session : SessionId) (ws : Workspace) (overrides : Overrides)
    (target : ProjectId) (place : Nat) (e : Errand π) : Prop where
  confined : e.Confined (AsksApart session ws overrides target)
  client : ∃ c left, e.world.clients[place]? = some c ∧
    e.own.calls.map CompileUnit.project ++ left =
      Plan.rebuilt (.ofWorkspace session ws) overrides target ∧
    c.stage.Rebuilds (.ofWorkspace session ws) overrides (ws.Unaffected overrides target)
      (fun left reply => left = [] ∧ ∃ a, reply = .ok (.artifact a)) left
  units : ∀ u ∈ e.own.calls, u.IsOverridden ws overrides

theorem sound_begin (b : Backend π) (session : SessionId) (overrides : Overrides)
    (htarget : target ∈ (Graph.build ws).ids) (w : World π) :
    (begin b w (.speculate (.ofWorkspace session ws) target overrides)).Sound session ws overrides
      target w.clients.length where
  confined := confined_begin _ b w _
  client := by
    refine ⟨_, _, List.getElem?_concat_length, rfl, ?_⟩
    refine Plan.rebuilds_bind (Plan.rebuilds_speculate htarget) ?_
    rintro left _ ⟨a, rfl, rfl⟩
    exact ⟨rfl, a.value, rfl⟩
  units := nofun

/-- What a client asks for while it rebuilds, and that it lists nothing. -/
theorem asksApart_of_rebuilds {Q : List ProjectId → Reply π → Prop} {left : List ProjectId}
    {stage : ClientStage π}
    (h : stage.Rebuilds (.ofWorkspace session ws) overrides (ws.Unaffected overrides target) Q
      left) :
    (∀ r next, stage = .requesting r next →
      AsksApart session ws overrides target r.context r.project) ∧
        ∀ key f ds next, stage ≠ .following (.file key f ds next) := by
  constructor
  · rintro r next rfl
    exact ⟨h.left, h.right.left⟩
  · rintro key f ds next rfl
    exact h

theorem Sound.step (h : e.Sound session ws overrides target place)
    (hw : e.world.Attained {b} allowed settings)
    (hcompiles : ∀ u, ∃ a, b.compile u = .compiled a) (hstep : e.Step b allowed place e') :
    e'.Sound session ws overrides target place := by
  have htidy := World.tidy_of_attained hw
  rcases h.client with ⟨c, left, hc, hleft, hstage⟩
  have hconfined : e'.Confined (AsksApart session ws overrides target) := by
    refine h.confined.step htidy ?_ ?_ hstep
    · rintro ctx id c ⟨rfl, hid⟩ hc
      exact ⟨rfl, hid.below hc⟩
    · intro c' hc'
      cases hc.symm.trans hc'
      exact asksApart_of_rebuilds hstage
  cases hstep with
  | @client before after c' stage s hclients hplace hmove hspares =>
      have hc' : e.world.clients[place]? = some c' := by
        simp [hclients, ← hplace]
      cases hc.symm.trans hc'
      have hprint (id : ProjectId) (hid : ws.Unaffected overrides target id) :
          ∃ f, (Context.ofWorkspace session ws).print b.environment id = .ok f := by
        have hreliable : Reliable {b} b.environment :=
          ⟨fun _ hb => by rw [Set.mem_singleton_iff.mp hb],
            fun _ hb => Set.mem_singleton_iff.mp hb ▸ hcompiles⟩
        exact hreliable.exists_print (Set.mem_singleton b)
          (Context.complete_ofWorkspace session ws) (Graph.mem_ids_of_withDependencies hid.upstream)
      have hanswers (r : Request π) (next : Except Error (Resolved π) → Plan π (Reply π))
          (result : Except Error (Resolved π)) (hrequesting : c.stage = .requesting r next)
          (hresult : r.result? e.machine = some result) : ∃ found, result = .ok found := by
        rw [hrequesting] at hstage
        refine (World.flawless_of_attained hcompiles hw).answers (World.traced_of_attained hw)
          (.client (hclients ▸ List.mem_append_right _ List.mem_cons_self) hrequesting)
          hstage.right.right.left hresult
      rcases hstage.of_moves hcompiles hprint hanswers hmove with
        ⟨units, rest, hrest, hstage', hcalls, hunits⟩
      have hown := e.own.calls_also hcalls
      refine ⟨hconfined, ⟨{ c with stage := stage }, rest, ?_, ?_, hstage'⟩, ?_⟩
      · simp [← hplace]
      · rw [← hleft, hrest, hown, List.map_append, List.append_assoc]
      · intro u hu
        rw [hown] at hu
        rcases List.mem_append.mp hu with hu | hu
        · exact h.units u hu
        · exact hunits u hu
  | task hk hjob hspares => exact ⟨hconfined, ⟨c, left, hc, hleft, hstage⟩, h.units⟩
  | other hturn hclient htasks =>
      refine ⟨hconfined, ?_, h.units⟩
      rcases hclient with hsame | ⟨c', hc', hcancelled⟩
      · exact ⟨c, left, hsame.trans hc, hleft, hstage⟩
      · refine ⟨c', left, hc', hleft, ?_⟩
        rw [hcancelled]
        exact trivial

theorem sound_of_runs (hw : w.Attained {b} allowed settings)
    (hcompiles : ∀ u, ∃ a, b.compile u = .compiled a) (htarget : target ∈ (Graph.build ws).ids)
    (h : Runs b allowed w (.speculate (.ofWorkspace session ws) target overrides) e) :
    e.Sound session ws overrides target w.clients.length := by
  induction h with
  | refl => exact sound_begin b session overrides htarget w
  | tail hruns hstep ih => exact ih.step (Runs.attained hruns hw) hcompiles hstep

/-!
# What comes of it
-/

/-- What a speculative build has compiled and left behind, however far it is. -/
structure Rebuilds (b : Backend π) (allowed : Set Upkeep) (session : SessionId)
    (ws : Workspace) (overrides : Overrides) (target : ProjectId) (place : Nat)
    (e : Errand π) : Prop where
  /-- If nothing upstream of the target is touched then nothing is compiled with overridden
  texts. -/
  untouched : ¬ ws.Affected overrides target → e.own.calls = []
  overridden : ∀ u ∈ e.own.calls, u.project ∈ (Graph.build ws).withDependencies target ∧
    ws.Affected overrides u.project ∧ u.IsOverridden ws overrides
  once : (e.own.calls.map CompileUnit.project).Nodup
  /-- The client returns an artifact, after it has compiled all affected projects. Until it
  returns or gives up there is always work left, unless fingerprints collide. -/
  client : ∃ c, e.world.clients[place]? = some c ∧ c.stage ≠ .panicked ∧
    (∀ reply, c.stage = .returned reply → (∃ a, reply = .ok (.artifact a)) ∧
      ∀ id ∈ (Graph.build ws).withDependencies target, ws.Affected overrides id →
        id ∈ e.own.calls.map CompileUnit.project) ∧
    (e.world.Unambiguous b → ¬ c.stage.isOut →
      ∃ w, e.world.Work b w ∧ e.machine.Spares w.machine)
  ends : ¬ ∃ run : Nat → World π, run 0 = e.world ∧ ∀ n, (run n).Work b (run (n + 1))
  /-- Tasks are there for unaffected projects, and for the texts as they are. -/
  tasks : ∀ k ∈ e.onAccount, ∃ t, e.machine.tasks.get? k = some t ∧
    t.context = .ofWorkspace session ws ∧ ws.Unaffected overrides target t.project ∧
    (Context.ofWorkspace session ws).print b.environment t.project = .ok t.fingerprint
  misses : ∀ {e'}, e.Step b allowed place e' → ∀ k ∈ e'.onAccount, k ∉ e.onAccount →
    ∃ t, e'.machine.tasks.get? k = some t ∧ e.machine.Lacks t
  compiled : ∀ u ∈ e.tasks.calls, ∃ k ∈ e.onAccount, ∃ t p references,
    e.machine.tasks.get? k = some t ∧ ws.project? t.project = some p ∧
      u = .ofProject p references
  entries : e.own.entries = ∅ ∧ ∀ x ∈ e.tasks.entries, ∃ k ∈ e.onAccount, ∃ t a,
    e.machine.tasks.get? k = some t ∧ x = (t.slot, t.fingerprint, a) ∧
      t.stage.settled? = some (.ok a)
  flights : ∀ x ∈ e.own.flights ∪ e.tasks.flights, x.2.ticket ∈ e.onAccount ∧ ∃ t,
    e.machine.tasks.get? x.2.ticket = some t ∧ x.1 = t.slot ∧ x.2.fingerprint = t.fingerprint
  listings : e.own.listings = ∅ ∧ e.tasks.listings = ∅

/-- Whatever the cache has been through and whoever else is at work, a speculative build compiles
the affected projects upstream of its target once each. All else that it causes are misses for
unaffected projects, and only these leave anything in the cache. -/
theorem rebuilds_affected (hw : w.Attained {b} allowed settings)
    (hcompiles : ∀ u, ∃ a, b.compile u = .compiled a) (htarget : target ∈ (Graph.build ws).ids)
    (h : Runs b allowed w (.speculate (.ofWorkspace session ws) target overrides) e) :
    e.Rebuilds b allowed session ws overrides target w.clients.length := by
  have hattained := h.attained hw
  have htraced := World.traced_of_attained hattained
  have htidy := World.tidy_of_attained hattained
  have hsound := sound_of_runs hw hcompiles htarget h
  have hconfined := hsound.confined
  rcases hsound.client with ⟨c, left, hc, hleft, hstage⟩
  have hsub : e.own.calls.map CompileUnit.project ⊆
      Plan.rebuilt (.ofWorkspace session ws) overrides target :=
    hleft ▸ List.subset_append_left _ _
  constructor
  · intro hunaffected
    rw [Plan.rebuilt_eq_nil hunaffected, List.append_eq_nil_iff] at hleft
    exact List.map_eq_nil_iff.mp hleft.left
  · intro u hu
    rcases Plan.mem_rebuilt_iff_affected.mp (hsub (List.mem_map_of_mem hu)) with
      ⟨hmem, haffected⟩
    exact ⟨hmem, haffected, hsound.units u hu⟩
  · have hnodup := Plan.nodup_rebuilt (.ofWorkspace session ws) overrides target
    rw [← hleft] at hnodup
    exact hnodup.of_append_left
  · refine ⟨c, hc, ?_, ?_, ?_⟩
    · intro hpanicked
      rw [hpanicked] at hstage
      exact hstage
    · intro reply hreturned
      rw [hreturned] at hstage
      rcases hstage with ⟨rfl, hreply⟩
      rw [List.append_nil] at hleft
      refine ⟨hreply, fun id hid haffected => ?_⟩
      rw [hleft]
      exact Plan.mem_rebuilt_iff_affected.mpr ⟨hid, haffected⟩
    · intro hunambiguous hin
      have hopen : e.world.schedule.gateOpen = true := World.gateOpen_of_leads hattained
      exact World.exists_work_sparing (World.orderly_of_attained hattained)
        (hunambiguous.descends htidy htraced) htraced hopen b
        (.client (List.mem_of_getElem? hc) hin)
  · exact World.work_runs_out (World.schedule_formed_of_attained hattained)
  · intro k hk
    rcases hconfined.of_onAccount hk with ⟨t, ht, hctx, hunaffected⟩
    exact ⟨t, ht, hctx, hunaffected, hctx ▸ (htraced.tasks ht).print⟩
  · intro e' hstep k hk hnew
    exact hstep.lacks htidy.formed hk hnew
  · intro u hu
    rcases hconfined.calls u hu with ⟨k, hk, t, p, references, ht, hp, heq⟩
    rcases hconfined.of_onAccount hk with ⟨t', ht', hctx, _⟩
    cases ht.symm.trans ht'
    rw [hctx] at hp
    exact ⟨k, hk, t, p, references, ht, hp, heq⟩
  · exact ⟨hconfined.unstored, hconfined.entries⟩
  · intro x hx
    rcases hx with hx | hx
    · exact (hconfined.own.flights x hx).imp_left .inl
    · exact (hconfined.tasks.flights x hx).imp_left .inr
  · exact hconfined.unlisted

/-- Three projects in a row. -/
def ladder : Workspace :=
  ⟨⟨"/"⟩,
    [⟨⟨"a"⟩, "", [⟨⟨"/a"⟩, "x"⟩], [], [], .empty⟩,
      ⟨⟨"b"⟩, "", [⟨⟨"/b"⟩, "x"⟩], [⟨"a"⟩], [], .empty⟩,
      ⟨⟨"c"⟩, "", [], [⟨"b"⟩], [], .empty⟩]⟩

/-- The build for which a document of the project in the middle is overridden. -/
def ladderCall : Call :=
  .speculate (.ofWorkspace ⟨"s"⟩ ladder) ⟨"c"⟩ (PathMap.empty.insert ⟨"/b"⟩ "y")

/-- The client asks for the first project, whose task compiles it, and goes on with the others. -/
def ladderDeeds : List Deed :=
  List.replicate 4 (.move 0) ++ List.replicate 12 (.work (.task 0)) ++
    List.replicate 8 (.move 0)

/-- The first project is a miss and stays in the cache, the other two are compiled. -/
theorem rebuilds_affected_ladder : ∃ e : Errand (List Document),
    Runs echo ∅ (.start .default) ladderCall e ∧
    e.Rebuilds echo ∅ ⟨"s"⟩ ladder (PathMap.empty.insert ⟨"/b"⟩ "y") ⟨"c"⟩ 0 ∧
    e.own.calls.map CompileUnit.project = [⟨"b"⟩, ⟨"c"⟩] ∧
    e.machine.tables.entries.keys = [⟨⟨"s"⟩, ⟨"a"⟩⟩] := by
  let w : World (List Document) := (begin echo (.start .default) ladderCall).world
  have hstart : World.Attained {echo} ∅ .default (.start .default : World (List Document)) := .refl
  have hcompiles (u : CompileUnit (List Document)) : ∃ a, echo.compile u = .compiled a :=
    ⟨_, rfl⟩
  have htarget : (⟨"c"⟩ : ProjectId) ∈ (Graph.build ladder).ids := by decide +kernel
  have hleads : World.Leads {echo} ∅ w (w.play echo ladderDeeds) :=
    World.leads_play (Set.mem_singleton echo) w ladderDeeds
  rcases Runs.leads .refl hstart hleads with ⟨e, hruns, hworld⟩
  have hreply : (((w.play echo ladderDeeds).clients[0]?).bind fun c => c.stage.reply?).isSome := by
    decide +kernel
  have hkeys : (w.play echo ladderDeeds).machine.tables.entries.keys = [⟨⟨"s"⟩, ⟨"a"⟩⟩] := by
    decide +kernel
  rw [← hworld] at hreply hkeys
  refine ⟨e, hruns, rebuilds_affected hstart hcompiles htarget hruns, ?_, hkeys⟩
  rcases (sound_of_runs hstart hcompiles htarget hruns).client with ⟨c, left, hc, hleft, hstage⟩
  have hreturned : c.stage.reply?.isSome := by
    change ((e.world.clients[0]?).bind fun c => c.stage.reply?).isSome at hreply
    rw [show e.world.clients[0]? = some c from hc] at hreply
    exact hreply
  have hdone : left = [] := by
    cases hcase : c.stage with
    | returned reply =>
        rw [hcase] at hstage
        exact hstage.left
    | _ =>
        rw [hcase] at hreturned
        cases hreturned
  rw [hdone, List.append_nil] at hleft
  rw [hleft]
  decide +kernel

end Errand
end Cache
end Ripple
