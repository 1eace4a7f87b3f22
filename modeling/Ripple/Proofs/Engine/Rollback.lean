import Ripple.Proofs.Engine.Outcomes
import Ripple.Proofs.Engine.Preview

/-!
# Edits that are taken back

Sessions that agree in all that their answers depend on go on to agree, whatever is in
the caches of their engines. So edits that are rolled back leave no trace, if nothing
was pending before them. What was is discarded with them.
-/

namespace Ripple

open Cache

variable {σ π α β : Type}

namespace Operation

variable {e : Engine σ π} {id : SessionId}

/-- Nothing follows on an error. -/
theorem run_bind_error {op : Operation σ π α} {halt : Halt} {e' : Engine σ π}
    (h : op.run e = (.error halt, e')) (k : α → Operation σ π β) :
    (op >>= k).run e = (.error halt, e') := by
  rw [run_bind, h]

/-- What needs a session fails without it. -/
theorem run_find_bind_missing (h : e.sessions.get? id = none) (k : Session → Operation σ π β) :
    (find id >>= k).run e = (.error (.failed (.sessionNotFound id)), e) := by
  have hfind : (find id : Operation σ π Session).run e =
      (.error (.failed (.sessionNotFound id)), e) := by
    unfold find
    rw [(returns_get_iff.mpr ⟨rfl, rfl⟩).run_bind, h]
    rfl
  exact run_bind_error hfind k

theorem run_use_bind_missing (h : e.sessions.get? id = none) (k : Session → Operation σ π β) :
    (use id >>= k).run e = (.error (.failed (.sessionNotFound id)), e) := by
  exact run_bind_error (run_find_bind_missing h _) k

end Operation

namespace Engine

variable {sv : Services σ π} {streams : Set (List UInt8)} {id : SessionId}
  {e e' : Engine σ π} {s s' : Session}

/-!
# Demands one after the other
-/

/-- The answers to demands, and the engine that is left in the end. -/
def serve (sv : Services σ π) (id : SessionId) :
    List Demand → Engine σ π → List (Except Halt Answer) × Engine σ π
  | [], e => ([], e)
  | d :: ds, e =>
      let first := (d.operation sv id).run e
      let rest := serve sv id ds first.2
      (first.1 :: rest.1, rest.2)

theorem serve_append (ds ds' : List Demand) (e : Engine σ π) :
    serve sv id (ds ++ ds') e =
      ((serve sv id ds e).1 ++ (serve sv id ds' (serve sv id ds e).2).1,
        (serve sv id ds' (serve sv id ds e).2).2) := by
  induction ds generalizing e with
  | nil => rfl
  | cons d ds ih =>
      rw [List.cons_append]
      simp only [serve, ih, List.cons_append]

theorem length_serve (ds : List Demand) (e : Engine σ π) :
    (serve sv id ds e).1.length = ds.length := by
  induction ds generalizing e with
  | nil => rfl
  | cons d ds ih => exact congrArg (· + 1) (ih _)

/-- What is hashed for the session is among streams all along. -/
def KnownAlong (sv : Services σ π) (streams : Set (List UInt8)) (id : SessionId)
    (ds : List Demand) (e : Engine σ π) : Prop :=
  ∀ before, before <+: ds → Known sv streams id (serve sv id before e).2

theorem KnownAlong.tail {d : Demand} {ds : List Demand}
    (h : KnownAlong sv streams id (d :: ds) e) :
    KnownAlong sv streams id ds ((d.operation sv id).run e).2 :=
  fun _ hbefore => h _ (List.cons_prefix_cons.mpr ⟨rfl, hbefore⟩)

theorem KnownAlong.head {d : Demand} {ds : List Demand}
    (h : KnownAlong sv streams id (d :: ds) e) :
    Known sv streams id ((d.operation sv id).run e).2 :=
  h.tail [] List.nil_prefix

theorem KnownAlong.left {ds ds' : List Demand} (h : KnownAlong sv streams id (ds ++ ds') e) :
    KnownAlong sv streams id ds e :=
  fun _ hbefore => h _ (hbefore.trans (List.prefix_append _ _))

theorem KnownAlong.right {ds ds' : List Demand} (h : KnownAlong sv streams id (ds ++ ds') e) :
    KnownAlong sv streams id ds' (serve sv id ds e).2 := by
  intro before hbefore
  have hknown := h (ds ++ before) ((List.prefix_append_right_inj ds).mpr hbefore)
  rw [serve_append] at hknown
  exact hknown

/-!
# One demand
-/

/-- The error of a demand on a session that is not there. -/
def Demand.refusal (id : SessionId) : Demand → Error
  | .applyEdits edits => if edits.isEmpty then .emptyBatch else .sessionNotFound id
  | _ => .sessionNotFound id

theorem run_demand_missing (h : e.sessions.get? id = none) (d : Demand) :
    (d.operation sv id).run e = (.error (.failed (d.refusal id)), e) := by
  have hedits (edits : List DocumentEdit) (hnonempty : ¬ edits.isEmpty) :
      (applyEdits sv id edits).run e = (.error (.failed (.sessionNotFound id)), e) := by
    unfold applyEdits
    rw [if_neg hnonempty]
    exact Operation.run_use_bind_missing h _
  cases d with
  | applyEdit edit =>
      have hedit : (applyEdit sv id edit).run e = (.error (.failed (.sessionNotFound id)), e) :=
        Operation.run_bind_error (hedits [edit] nofun) _
      exact Operation.run_bind_error hedit _
  | applyEdits edits =>
      simp only [Demand.refusal]
      by_cases hempty : edits.isEmpty
      · rw [if_pos hempty]
        refine Operation.run_bind_error ?_ _
        unfold applyEdits
        rw [if_pos hempty]
        rfl
      · rw [if_neg hempty]
        exact Operation.run_bind_error (hedits edits hempty) _
  | reload path => exact Operation.run_bind_error (Operation.run_find_bind_missing h _) _
  | finish => exact Operation.run_bind_error (Operation.run_find_bind_missing h _) _
  | _ => exact Operation.run_bind_error (Operation.run_use_bind_missing h _) _

/-- Two engines that answer alike: both have the session and it agrees in all that its
answers depend on, or neither has it. -/
structure Twins (sv : Services σ π) (streams : Set (List UInt8)) (id : SessionId)
    (e e' : Engine σ π) : Prop where
  store : e'.store = e.store
  config : e'.config = e.config
  session : (∃ s s', Ready sv streams id e s ∧ Ready sv streams id e' s' ∧ s.Like s') ∨
    e.sessions.get? id = none ∧ e'.sessions.get? id = none

theorem Ready.of_hosts (h : Ready sv streams id e s) (hhosts : Hosts sv streams id e' s')
    (hanalyzers : s'.analyzers = s.analyzers) (hknown : Known sv streams id e') :
    Ready sv streams id e' s' :=
  ⟨hhosts, h.free, hanalyzers ▸ h.named, hknown s' hhosts.session⟩

theorem Twins.step (h : Twins sv streams id e e')
    (hcompiles : ∀ u, ∃ a, sv.backend.compile u = .compiled a) (d : Demand)
    (hknown : Known sv streams id ((d.operation sv id).run e).2)
    (hknown' : Known sv streams id ((d.operation sv id).run e').2) :
    ((d.operation sv id).run e').1 = ((d.operation sv id).run e).1 ∧
      Twins sv streams id ((d.operation sv id).run e).2 ((d.operation sv id).run e').2 := by
  rcases h.session with ⟨s, s', hready, hready', hlike⟩ | ⟨hmissing, hmissing'⟩
  · rcases hready.ends_demand hcompiles d fun _ => hknown with ⟨e₁, hends, hmet, hconfig⟩
    rcases hready'.ends_demand hcompiles d fun _ => hknown' with ⟨e₁', hends', hmet', hconfig'⟩
    have houtcome := outcome_like sv e.config.edits.includeAnalyzers hlike e.store d
    rw [h.config, h.store] at hends' hmet'
    rw [show (d.operation sv id).run e = _ from hends] at hknown ⊢
    rw [show (d.operation sv id).run e' = _ from hends'] at hknown' ⊢
    refine ⟨congrArg (Except.mapError Halt.failed) houtcome.answer, ?_, ?_, ?_⟩
    · exact (hmet'.left.trans houtcome.store).trans hmet.left.symm
    · exact hconfig'.trans (h.config.trans hconfig.symm)
    · have hsessions := houtcome.session
      have hleft := hmet.right
      have hleft' := hmet'.right
      have hanalyzers {t : Session} : _ = some t → t.analyzers = s.analyzers :=
        analyzers_outcome sv e.config.edits.includeAnalyzers e.store d
      have hanalyzers' {t : Session} : _ = some t → t.analyzers = s'.analyzers :=
        analyzers_outcome sv e.config.edits.includeAnalyzers e.store d
      generalize (d.outcome sv e.config.edits.includeAnalyzers s e.store).session = left at *
      generalize (d.outcome sv e.config.edits.includeAnalyzers s' e.store).session = left' at *
      cases hsessions with
      | none => exact .inr ⟨hleft.right, hleft'.right⟩
      | some halike =>
          rcases hleft with ⟨t, hhosts, ht⟩
          rcases hleft' with ⟨t', hhosts', ht'⟩
          refine .inl ⟨t, t', ?_, ?_, (ht.symm.trans halike).trans ht'⟩
          · exact hready.of_hosts hhosts (ht.analyzers.trans (hanalyzers rfl)) hknown
          · exact hready'.of_hosts hhosts' (ht'.analyzers.trans (hanalyzers' rfl)) hknown'
  · rw [run_demand_missing hmissing, run_demand_missing hmissing']
    exact ⟨rfl, h⟩

/-- Engines that answer alike do so from then on. -/
theorem Twins.serve (h : Twins sv streams id e e')
    (hcompiles : ∀ u, ∃ a, sv.backend.compile u = .compiled a) {ds : List Demand}
    (hknown : KnownAlong sv streams id ds e) (hknown' : KnownAlong sv streams id ds e') :
    (serve sv id ds e').1 = (serve sv id ds e).1 ∧
      Twins sv streams id (serve sv id ds e).2 (serve sv id ds e').2 := by
  induction ds generalizing e e' with
  | nil => exact ⟨rfl, h⟩
  | cons d ds ih =>
      rcases h.step hcompiles d hknown.head hknown'.head with ⟨hfirst, htwins⟩
      rcases ih htwins hknown.tail hknown'.tail with ⟨hrest, hlast⟩
      exact ⟨List.cons_eq_cons.mpr ⟨hfirst, hrest⟩, hlast⟩

theorem Twins.workspace (h : Twins sv streams id e e') :
    (e'.sessions.get? id).map Session.workspace = (e.sessions.get? id).map Session.workspace := by
  rcases h.session with ⟨s, s', hready, hready', hlike⟩ | ⟨hmissing, hmissing'⟩
  · rw [hready.session, hready'.session]
    exact congrArg some hlike.workspace
  · rw [hmissing, hmissing']

/-!
# Edits and their rollback
-/

def Demand.isEdit : Demand → Bool
  | .applyEdit _ | .applyEdits _ => true
  | _ => false

/-- The demand leaves the model and the store alone. -/
def Demand.isSparing : Demand → Bool
  | .commit | .refresh | .reload _ | .finish => false
  | _ => true

theorem Demand.isSparing_of_isEdit {d : Demand} (h : d.isEdit) : d.isSparing := by
  cases d <;> first | rfl | cases h

/-- What is hashed for a session is the same whatever is pending in it. -/
theorem Ready.of_akin (h : Ready sv streams id e s) (hhosts : Hosts sv streams id e' s')
    (hakin : s.Akin s') : Ready sv streams id e' s' := by
  have hcontext : s'.context = s.context := by
    rw [Session.context, hakin.workspace, hakin.graph, hhosts.keyed.trans h.keyed.symm]
    rfl
  exact ⟨hhosts, h.free, hakin.analyzers ▸ h.named, hcontext ▸ h.covered⟩

theorem akin_outcome (sv : Services σ π) (analyzed : Bool) (s : Session) (store : σ) {d : Demand}
    (hd : d.isSparing) :
    ∃ t, (d.outcome sv analyzed s store).session = some t ∧ s.Akin t ∧
      (d.outcome sv analyzed s store).store = store := by
  cases d with
  | applyEdit edit => exact ⟨_, rfl, akin_stageAll s.workspace [edit] s, rfl⟩
  | applyEdits edits =>
      simp only [Demand.outcome]
      split
      · exact ⟨s, rfl, .refl s, rfl⟩
      · exact ⟨_, rfl, akin_stageAll s.workspace edits s, rfl⟩
  | rollback => exact ⟨_, rfl, ⟨rfl, rfl, rfl, rfl, rfl⟩, rfl⟩
  | invalidateProject p =>
      simp only [Demand.outcome]
      split <;> exact ⟨s, rfl, .refl s, rfl⟩
  | commit => cases hd
  | refresh => cases hd
  | reload path => cases hd
  | finish => cases hd
  | _ => exact ⟨s, rfl, .refl s, rfl⟩

/-- Such demands change what is pending at most. -/
theorem Ready.serve_sparing (h : Ready sv streams id e s)
    (hcompiles : ∀ u, ∃ a, sv.backend.compile u = .compiled a) {ds : List Demand}
    (hsparing : ∀ d ∈ ds, d.isSparing) :
    ∃ t, Ready sv streams id (serve sv id ds e).2 t ∧ s.Akin t ∧
      e.Rests (serve sv id ds e).2 := by
  induction ds generalizing e s with
  | nil => exact ⟨s, h, .refl s, rfl, rfl⟩
  | cons d ds ih =>
      have hd : d.isSparing := hsparing d List.mem_cons_self
      have hnot : d ≠ .refresh := by
        rintro rfl
        cases hd
      rcases h.ends_demand hcompiles d fun h => absurd h hnot with ⟨e₁, hends, hmet, hconfig⟩
      rcases akin_outcome sv e.config.edits.includeAnalyzers s e.store hd with
        ⟨t, hsession, hakin, hstore⟩
      unfold Outcome.Met at hmet
      rw [hsession, hstore] at hmet
      rcases hmet with ⟨hstore₁, t', hhosts, hlike⟩
      rcases ih (h.of_akin hhosts (hakin.trans hlike.toAkin))
          (fun d hd => hsparing d (List.mem_cons_of_mem _ hd)) with ⟨u, hready, hakin', hrests⟩
      simp only [Engine.serve]
      rw [show (d.operation sv id).run e = _ from hends]
      exact ⟨u, hready, (hakin.trans hlike.toAkin).trans hakin',
        hrests.left.trans hstore₁, hrests.right.trans hconfig⟩

theorem Ready.knownAlong (h : Ready sv streams id e s)
    (hcompiles : ∀ u, ∃ a, sv.backend.compile u = .compiled a) {ds : List Demand}
    (hsparing : ∀ d ∈ ds, d.isSparing) : KnownAlong sv streams id ds e := by
  intro before hbefore t ht
  rcases h.serve_sparing hcompiles fun d hd => hsparing d (hbefore.subset hd) with
    ⟨t', hready, _⟩
  cases hready.session.symm.trans ht
  exact hready.covered

/-- A rollback leaves nothing pending. -/
theorem Ready.serve_rollback (h : Ready sv streams id e s)
    (hcompiles : ∀ u, ∃ a, sv.backend.compile u = .compiled a) :
    ∃ t, Ready sv streams id (serve sv id [.rollback] e).2 t ∧ s.Akin t ∧ t.pending = ∅ ∧
      e.Rests (serve sv id [.rollback] e).2 := by
  rcases h.ends_demand hcompiles .rollback nofun with ⟨e₁, hends, ⟨hstore, t, hhosts, hlike⟩, hconfig⟩
  have hakin : s.Akin s.discardPending := ⟨rfl, rfl, rfl, rfl, rfl⟩
  simp only [Engine.serve]
  rw [show (Demand.rollback.operation sv id).run e = _ from hends]
  exact ⟨t, h.of_akin hhosts (hakin.trans hlike.toAkin), hakin.trans hlike.toAkin,
    hlike.pending, hstore, hconfig⟩

/-- Edits that are rolled back leave an engine that answers as if nothing had been
pending. -/
theorem Ready.serve_block (h : Ready sv streams id e s)
    (hcompiles : ∀ u, ∃ a, sv.backend.compile u = .compiled a) {block : List Demand}
    (hblock : ∀ d ∈ block, d.isEdit) :
    ∃ t, Ready sv streams id (serve sv id (block ++ [.rollback]) e).2 t ∧ s.Akin t ∧
      t.pending = ∅ ∧ e.Rests (serve sv id (block ++ [.rollback]) e).2 := by
  rcases h.serve_sparing hcompiles fun d hd => Demand.isSparing_of_isEdit (hblock d hd) with
    ⟨t, hready, hakin, hrests⟩
  rcases hready.serve_rollback hcompiles with ⟨u, hready', hakin', hpending, hrests'⟩
  rw [serve_append]
  exact ⟨u, hready', hakin.trans hakin', hpending, hrests'.left.trans hrests.left,
    hrests'.right.trans hrests.right⟩

theorem pending_eq_empty (h : s.pendingEdits = []) : s.pending = ∅ := by
  have hrows : s.pending.rows = [] := List.map_eq_nil_iff.mp h
  rcases hpending : s.pending with ⟨rows⟩
  rw [hpending] at hrows
  cases hrows
  rfl

/-- Diagnostics depend on the model of the session, and not on what is pending in it nor
on what is in the cache. -/
theorem diagnostics_akin (h : Ready sv streams id e s) (h' : Ready sv streams id e' s')
    (hcompiles : ∀ u, ∃ a, sv.backend.compile u = .compiled a) (hconfig : e'.config = e.config)
    (hakin : s.Akin s') (project? : Option ProjectId) (analyze? : Option Bool) :
    ((diagnostics sv id project? analyze?).run e').1 =
      ((diagnostics sv id project? analyze?).run e).1 := by
  rcases h.ends_diagnostics hcompiles project? analyze? with ⟨e₁, _, hends, _⟩
  rcases h'.ends_diagnostics hcompiles project? analyze? with ⟨e₁', _, hends', _⟩
  rw [hends, hends', hconfig, hakin.diagnosed]

/-- The engine answers demands as long as what is hashed is known. -/
theorem Ready.serve_known (h : Ready sv streams id e s)
    (hcompiles : ∀ u, ∃ a, sv.backend.compile u = .compiled a) {ds : List Demand}
    (hknown : KnownAlong sv streams id ds e) {t : Session}
    (ht : (serve sv id ds e).2.sessions.get? id = some t) :
    Ready sv streams id (serve sv id ds e).2 t := by
  have htwins : Twins sv streams id e e := ⟨rfl, rfl, .inl ⟨s, s, h, h, .refl s⟩⟩
  rcases (htwins.serve hcompiles hknown hknown).right.session with
    ⟨t', _, hready, _⟩ | ⟨hmissing, _⟩
  · cases hready.session.symm.trans ht
    exact hready
  · cases hmissing.symm.trans ht

/-- Demands on a session that is not there change nothing. -/
theorem serve_missing (h : e.sessions.get? id = none) (ds : List Demand) :
    (serve sv id ds e).2 = e := by
  induction ds with
  | nil => rfl
  | cons d ds ih =>
      simp only [serve, run_demand_missing h]
      exact ih

/-- Edits that are rolled back leave an engine that answers as before, if nothing was
pending. -/
theorem Ready.twins_block (h : Ready sv streams id e s)
    (hcompiles : ∀ u, ∃ a, sv.backend.compile u = .compiled a) {block : List Demand}
    (hblock : ∀ d ∈ block, d.isEdit) (hidle : s.pendingEdits = []) :
    Twins sv streams id e (serve sv id (block ++ [.rollback]) e).2 := by
  rcases h.serve_block hcompiles hblock with ⟨t, hready, hakin, hpending, hrests⟩
  exact ⟨hrests.left, hrests.right,
    .inl ⟨s, t, h, hready, hakin, hpending.trans (pending_eq_empty hidle).symm⟩⟩

/-- Edits that are rolled back leave no trace in later answers, in the store and in the
model, if nothing was pending before them. Diagnostics are the same with any edits
pending, and in any engine that has the model. -/
theorem rolled_back_without_trace (hbegins : Begins sv streams id e s)
    (hcompiles : ∀ u, ∃ a, sv.backend.compile u = .compiled a) (before block later : List Demand)
    (hblock : ∀ d ∈ block, d.isEdit)
    (hknown : KnownAlong sv streams id (before ++ (block ++ .rollback :: later)) e)
    (hknown' : KnownAlong sv streams id (before ++ later) e) :
    let plain := (serve sv id before e).2
    let undone := (serve sv id (before ++ (block ++ [.rollback])) e).2
    ((∀ t, plain.sessions.get? id = some t → t.pendingEdits = []) →
      (serve sv id later undone).1 = (serve sv id later plain).1 ∧
      (serve sv id later undone).2.store = (serve sv id later plain).2.store ∧
      ((serve sv id later undone).2.sessions.get? id).map Session.workspace =
        ((serve sv id later plain).2.sessions.get? id).map Session.workspace) ∧
    (∀ project? analyze?,
      ((diagnostics sv id project? analyze?).run (serve sv id (before ++ block) e).2).1 =
        ((diagnostics sv id project? analyze?).run plain).1) ∧
    ∀ t e' t', plain.sessions.get? id = some t → Ready sv streams id e' t' → t.Akin t' →
      e'.config = plain.config → ∀ project? analyze?,
        ((diagnostics sv id project? analyze?).run e').1 =
          ((diagnostics sv id project? analyze?).run plain).1 := by
  intro plain undone
  have hready {t : Session} (ht : plain.sessions.get? id = some t) :
      Ready sv streams id plain t :=
    hbegins.ready.serve_known hcompiles hknown'.left ht
  have hundone : undone = (serve sv id (block ++ [.rollback]) plain).2 := by
    simp only [undone, plain, serve_append]
  refine ⟨fun hidle => ?_, fun project? analyze? => ?_, ?_⟩
  · have htwins : Twins sv streams id plain undone := by
      rw [hundone]
      cases ht : plain.sessions.get? id with
      | none => exact (serve_missing ht _).symm ▸ ⟨rfl, rfl, .inr ⟨ht, ht⟩⟩
      | some t => exact (hready ht).twins_block hcompiles hblock (hidle t ht)
    have hundone' : KnownAlong sv streams id later undone := by
      have hright := hknown
      rw [show before ++ (block ++ .rollback :: later) =
        (before ++ (block ++ [.rollback])) ++ later by simp] at hright
      exact hright.right
    rcases htwins.serve hcompiles hknown'.right hundone' with ⟨hanswers, hlast⟩
    exact ⟨hanswers, hlast.store, hlast.workspace⟩
  · have hafter : (serve sv id (before ++ block) e).2 = (serve sv id block plain).2 := by
      simp only [plain, serve_append]
    rw [hafter]
    cases ht : plain.sessions.get? id with
    | none => rw [serve_missing ht]
    | some t =>
        rcases (hready ht).serve_sparing hcompiles fun d hd =>
            Demand.isSparing_of_isEdit (hblock d hd) with ⟨t', hedited, hakin, hrests⟩
        exact diagnostics_akin (hready ht) hedited hcompiles hrests.right hakin project? analyze?
  · intro t e' t' ht hready' hakin hconfig project? analyze?
    exact diagnostics_akin (hready ht) hready' hcompiles hconfig hakin project? analyze?

/-- For one, an edit to a project with a file of its own. -/
theorem rolled_back_apart :
    let undone := (serve calm ⟨"s"⟩ [.applyEdit typing, .rollback] (singlesEngine apart)).2
    (serve calm ⟨"s"⟩ [.applyEdit typing, .pendingEdits] undone).1 =
      (serve calm ⟨"s"⟩ [.applyEdit typing, .pendingEdits] (singlesEngine apart)).1 := by
  have hbegins := begins_singles apart (by decide) (by decide +kernel)
  have hcompiles := faultless_mirror.compiles
  refine ((rolled_back_without_trace hbegins hcompiles [] [.applyEdit typing]
    [.applyEdit typing, .pendingEdits] (by decide)
    (hbegins.ready.knownAlong hcompiles (by decide))
    (hbegins.ready.knownAlong hcompiles (by decide))).left ?_).left
  intro t ht
  cases hbegins.session.symm.trans ht
  rfl

/-!
# What was pending before
-/

theorem Ready.serve_pendingEdits (h : Ready sv streams id e s)
    (hcompiles : ∀ u, ∃ a, sv.backend.compile u = .compiled a) :
    (serve sv id [.pendingEdits] e).1 = [.ok (.pending s.pendingEdits)] := by
  rcases h.ends_demand hcompiles .pendingEdits nofun with ⟨e', hends, _⟩
  simp only [serve]
  rw [show (Demand.pendingEdits.operation sv id).run e = _ from hends]
  rfl

/-- A rollback discards what was pending before the edits with them, so there must have
been nothing if it is to leave no trace. -/
theorem Ready.pending_of_traceless (h : Ready sv streams id e s)
    (hcompiles : ∀ u, ∃ a, sv.backend.compile u = .compiled a) (block : List Demand)
    (hblock : ∀ d ∈ block, d.isEdit)
    (hsame : (serve sv id [.pendingEdits] (serve sv id (block ++ [.rollback]) e).2).1 =
      (serve sv id [.pendingEdits] e).1) : s.pendingEdits = [] := by
  rcases h.serve_block hcompiles hblock with ⟨t, hready, _, hpending, _⟩
  rw [h.serve_pendingEdits hcompiles, hready.serve_pendingEdits hcompiles] at hsame
  have hedits : t.pendingEdits = s.pendingEdits := by simpa using hsame
  rw [← hedits, Session.pendingEdits, hpending]
  rfl

/-- An edit that has been pending since the start is gone with the next one. -/
theorem rolled_back_with_earlier_edit :
    let plain := (serve calm ⟨"s"⟩ [.applyEdit typing] (singlesEngine apart)).2
    let undone := (serve calm ⟨"s"⟩ ([.applyEdit typing] ++ ([.applyEdit typing] ++ [.rollback]))
      (singlesEngine apart)).2
    Begins calm {stream | stream ∈ singlesStreams} ⟨"s"⟩ (singlesEngine apart)
      (singlesSession apart) ∧
    (singlesSession apart).pendingEdits = [] ∧
    (∀ u, ∃ a, calm.backend.compile u = .compiled a) ∧
    KnownAlong calm {stream | stream ∈ singlesStreams} ⟨"s"⟩
      ([.applyEdit typing] ++ ([.applyEdit typing] ++ .rollback :: [.pendingEdits]))
      (singlesEngine apart) ∧
    KnownAlong calm {stream | stream ∈ singlesStreams} ⟨"s"⟩
      ([.applyEdit typing] ++ [.pendingEdits]) (singlesEngine apart) ∧
    (serve calm ⟨"s"⟩ [.pendingEdits] undone).1 ≠
      (serve calm ⟨"s"⟩ [.pendingEdits] plain).1 := by
  intro plain undone
  have hbegins := begins_singles apart (by decide) (by decide +kernel)
  have hcompiles := faultless_mirror.compiles
  refine ⟨hbegins, rfl, hcompiles, hbegins.ready.knownAlong hcompiles (by decide),
    hbegins.ready.knownAlong hcompiles (by decide), ?_⟩
  rcases hbegins.ready.ends_demand hcompiles (.applyEdit typing) nofun with
    ⟨e₁, hends, ⟨_, t, hhosts, hlike⟩, _⟩
  have hplain : plain = e₁ := congrArg Prod.snd hends
  have hready : Ready calm {stream | stream ∈ singlesStreams} ⟨"s"⟩ plain t := by
    rw [hplain]
    exact hbegins.ready.of_akin hhosts ((akin_stageAll _ [typing] _).trans hlike.toAkin)
  have hpending : t.pendingEdits ≠ [] := by
    rw [hlike.pendingEdits]
    decide +kernel
  intro hsame
  refine hpending (hready.pending_of_traceless hcompiles [.applyEdit typing] (by decide) ?_)
  rw [← hsame]
  simp only [undone, plain, serve_append]

end Engine
end Ripple
