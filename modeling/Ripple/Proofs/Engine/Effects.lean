import Ripple.Proofs.Engine.Rollback
import Ripple.Proofs.Engine.Stages
import Ripple.Proofs.Store.Discreet

/-!
# What a step comes to

Where compiling is total, a step of an operation is a function of the session and the
store, as whole operations are. So is a step of a start, which puts a session in.
-/

namespace Ripple

open Cache

variable {σ π : Type}

/-!
# Session ids aside
-/

def Error.aside : Error → Error
  | .sessionNotFound _ => .sessionNotFound ⟨""⟩
  | e => e

def Halt.aside : Halt → Halt
  | .failed e => .failed e.aside
  | halt => halt

namespace Engine

def Stage.aside : Stage → Stage
  | .failed halt => .failed halt.aside
  | stage => stage

/-- The end of an operation. -/
def Stage.ended : Except Error Answer → Stage
  | .ok answer => .answered answer
  | .error e => .failed (.failed e)

/-!
# Effects
-/

/-- What a step comes to: how far the operation is, the session if it is there, and the
store. -/
structure Effect (σ : Type) where
  stage : Stage
  session : Option Session
  store : σ

/-- What the first step comes to. -/
def Demand.effect (sv : Services σ π) (analyzed : Bool) (s : Session) (store : σ) :
    Demand → Effect σ
  | .commit => ⟨.writing s.pendingEdits .empty, some s, store⟩
  | .refresh => ⟨.loading s.source s.root, some s, store⟩
  | .reload path =>
      match s.workspace.document? (s.workspace.resolve path) with
      | none => ⟨.ended (.error (.documentNotFound (s.workspace.resolve path))), some s, store⟩
      | some (p, d) => ⟨.reading (s.workspace.resolve path) p.id d.content, some s, store⟩
  | d =>
      let o := d.outcome sv analyzed s store
      ⟨.ended o.answer, o.session, o.store⟩

/-- What a step comes to without a cache. -/
def Stage.effect (sv : Services σ π) (analyzed : Bool) (id : SessionId) :
    Stage → Option Session → σ → Effect σ
  | .answered answer, s?, store => ⟨.answered answer, s?, store⟩
  | .failed halt, s?, store => ⟨.failed halt, s?, store⟩
  | .writing (edit :: left) report, s?, store =>
      match sv.store.write store edit.path edit.text with
      | (.error e, store) =>
          ⟨.writing left { report with
            failed := report.failed ++ [⟨edit.path, .writeFailed edit.path e.message⟩] }, s?, store⟩
      | (.ok (), store) => ⟨.folding edit left report, s?, store⟩
  | .reading path p known, s?, store =>
      match sv.store.read store path with
      | .error e => ⟨.ended (.error (.readFailed path e.message)), s?, store⟩
      | .ok content =>
          ⟨if content = known then .answered (.invalidated []) else .updating path p content, s?,
            store⟩
  | .loading source root, s?, store =>
      match sv.store.load store source root with
      | (.error cause, store) => ⟨.ended (.error (.loadFailed root cause)), s?, store⟩
      | (.ok w, store) => ⟨.replacing w, s?, store⟩
  | .asked d, none, store => ⟨.ended (.error (d.refusal id)), none, store⟩
  | .asked d, some s, store => d.effect sv analyzed s store
  | .writing [] report, some s, store => ⟨.answered (.committed report), some s, store⟩
  | .folding edit left report, some s, store =>
      ⟨.writing left { report with
          written := report.written ++ [edit.path]
          invalidated := addNew report.invalidated (Tables.affectedBy s.graph edit.project) },
        some (s.settle edit), store⟩
  | .updating path p content, some s, store =>
      ⟨.answered (.invalidated (Tables.affectedBy s.graph p)),
        some (((s.updateDocument path content).map Prod.snd).getD s), store⟩
  | .replacing w, some s, store =>
      ⟨.answered .done, some (s.discardPending.replaceWorkspace w), store⟩
  | _, none, store => ⟨.ended (.error (.sessionNotFound id)), none, store⟩

/-- The step is made on the session. -/
def Stage.works : Stage → Bool
  | .asked _ | .writing [] _ | .folding _ _ _ | .updating _ _ _ | .replacing _ => true
  | _ => false

/-- The step turns to the store for what is to be told of it. -/
def Stage.looks : Stage → Bool
  | .reading _ _ _ | .loading _ _ => true
  | _ => false

/-- What the step writes to. -/
def Stage.writes? : Stage → Option Path
  | .writing (edit :: _) _ => some edit.path
  | _ => none

/-!
# Alike sessions and paired stores come to alike effects
-/

/-- Two effects differ in session ids, in what answers do not depend on, and in what
others have written. -/
structure Effect.Like (st : Store σ) (files : Set Path) (alike : σ → σ → Prop) (alone : Prop)
    (o o' : Effect σ) : Prop where
  stage : o'.stage.aside = o.stage.aside
  session : Option.Rel Session.Like o.session o'.session
  store : st.Paired files alike alone o.store o'.store

section

variable {sv : Services σ π} {files : Set Path} {alike : σ → σ → Prop} {alone : Prop}
  {s s' : Session} {store store' : σ}

theorem Stage.eq_or_failed {stage stage' : Stage} (h : stage'.aside = stage.aside) :
    stage' = stage ∨ ∃ halt halt', stage = .failed halt ∧ stage' = .failed halt' := by
  cases stage <;> cases stage' <;>
    first
    | exact .inr ⟨_, _, rfl, rfl⟩
    | (cases h; exact .inl rfl)
    | cases h

theorem Demand.aside_refusal (id id' : SessionId) (d : Demand) :
    (d.refusal id').aside = (d.refusal id).aside := by
  cases d with
  | applyEdits edits =>
      simp only [Demand.refusal]
      split <;> rfl
  | _ => rfl

/-- Demands that are met in one step do not turn to the store. -/
theorem Demand.outcome_store (analyzed : Bool) (s : Session) (store : σ) {d : Demand}
    (hcommit : d ≠ .commit) (hrefresh : d ≠ .refresh) (hreload : ∀ path, d ≠ .reload path)
    (store' : σ) :
    d.outcome sv analyzed s store' = { d.outcome sv analyzed s store with store := store' } := by
  cases d with
  | commit => exact absurd rfl hcommit
  | refresh => exact absurd rfl hrefresh
  | reload path => exact absurd rfl (hreload path)
  | applyEdits edits =>
      simp only [Demand.outcome]
      split <;> rfl
  | invalidateProject p =>
      simp only [Demand.outcome]
      split <;> rfl
  | _ => rfl

/-- The first step of a demand leaves the store alone. -/
theorem Demand.effect_store (analyzed : Bool) (s : Session) (store : σ) (d : Demand) :
    (d.effect sv analyzed s store).store = store := by
  have hwhole (hcommit : d ≠ .commit) (hrefresh : d ≠ .refresh)
      (hreload : ∀ path, d ≠ .reload path) :
      (d.outcome sv analyzed s store).store = store := by
    rw [d.outcome_store analyzed s store hcommit hrefresh hreload store]
  cases d with
  | commit => rfl
  | refresh => rfl
  | reload path =>
      simp only [Demand.effect]
      cases s.workspace.document? (s.workspace.resolve path) <;> rfl
  | _ => exact hwhole nofun nofun fun _ => nofun

theorem Demand.effect_like (h : s.Like s')
    (hstores : sv.store.Paired files alike alone store store') (analyzed : Bool) (d : Demand) :
    Effect.Like sv.store files alike alone (d.effect sv analyzed s store)
      (d.effect sv analyzed s' store') := by
  have hwhole (hcommit : d ≠ .commit) (hrefresh : d ≠ .refresh) (hreload : ∀ path, d ≠ .reload path)
      {o o' : Outcome σ} (ho : o = d.outcome sv analyzed s store)
      (ho' : o' = d.outcome sv analyzed s' store') :
      Effect.Like sv.store files alike alone ⟨.ended o.answer, o.session, o.store⟩
        ⟨.ended o'.answer, o'.session, o'.store⟩ := by
    have hlike := outcome_like sv analyzed h store d
    have hstore : (d.outcome sv analyzed s store).store = store := by
      rw [d.outcome_store analyzed s store hcommit hrefresh hreload store]
    rw [d.outcome_store analyzed s' store hcommit hrefresh hreload] at ho'
    subst ho ho'
    exact ⟨congrArg (fun answer => (Stage.ended answer).aside) hlike.answer, hlike.session,
      hstore.symm ▸ hstores⟩
  cases d with
  | commit =>
      refine ⟨?_, .some h, hstores⟩
      simp only [Demand.effect, h.pendingEdits]
  | refresh =>
      refine ⟨?_, .some h, hstores⟩
      simp only [Demand.effect, h.source, h.root]
  | reload path =>
      simp only [Demand.effect, h.workspace]
      cases s.workspace.document? (s.workspace.resolve path) with
      | none => exact ⟨rfl, .some h, hstores⟩
      | some found => exact ⟨rfl, .some h, hstores⟩
  | _ => exact hwhole nofun nofun (fun _ => nofun) rfl rfl

/-- A step comes to the same for both if nobody else has written where it looks. -/
theorem Stage.effect_like (hst : sv.store.Discreet files alike) {stage stage' : Stage}
    (haside : stage'.aside = stage.aside) {s? s?' : Option Session}
    (hsession : Option.Rel Session.Like s? s?')
    (hstores : sv.store.Paired files alike alone store store') (hlooks : stage.looks → alone)
    (hwrites : ∀ path, stage.writes? = some path → path ∈ files) (analyzed : Bool)
    (id id' : SessionId) :
    Effect.Like sv.store files alike alone (stage.effect sv analyzed id s? store)
      (stage'.effect sv analyzed id' s?' store') := by
  rcases stage.eq_or_failed haside with rfl | ⟨halt, halt', rfl, rfl⟩
  · cases stage' with
    | answered answer => exact ⟨rfl, hsession, hstores⟩
    | failed halt => exact ⟨rfl, hsession, hstores⟩
    | asked d =>
        cases hsession with
        | none =>
            have hrefusal := congrArg (fun e => Stage.failed (.failed e)) (d.aside_refusal id id')
            exact ⟨hrefusal, .none, hstores⟩
        | some h => exact Demand.effect_like h hstores analyzed d
    | writing left report =>
        cases left with
        | nil =>
            cases hsession with
            | none => exact ⟨rfl, .none, hstores⟩
            | some h => exact ⟨rfl, .some h, hstores⟩
        | cons edit left =>
            have hpath : edit.path ∈ files := hwrites _ rfl
            have hresult := hstores.writable edit.path hpath edit.text
            have hwritten := hstores.write hst hpath edit.text
            simp only [Stage.effect]
            generalize sv.store.write store edit.path edit.text = wrote at *
            generalize sv.store.write store' edit.path edit.text = wrote' at *
            rcases wrote with ⟨cause | _, m⟩ <;> rcases wrote' with ⟨cause' | _, m'⟩ <;>
              cases hresult
            · exact ⟨rfl, hsession, hwritten⟩
            · exact ⟨rfl, hsession, hwritten⟩
    | folding edit left report =>
        cases hsession with
        | none => exact ⟨rfl, .none, hstores⟩
        | some h =>
            refine ⟨?_, .some (h.settle edit), hstores⟩
            simp only [Stage.effect, h.graph]
    | reading path p known =>
        have hread := hst.read (hstores.alike (hlooks rfl)) path
        simp only [Stage.effect, hread]
        cases sv.store.read store path with
        | error cause => exact ⟨rfl, hsession, hstores⟩
        | ok content => exact ⟨rfl, hsession, hstores⟩
    | updating path p content =>
        cases hsession with
        | none => exact ⟨rfl, .none, hstores⟩
        | some h =>
            refine ⟨?_, .some (h.update path content), hstores⟩
            simp only [Stage.effect, h.graph]
    | loading source root =>
        have hresult := hst.load (hstores.alike (hlooks rfl)) source root
        have hloaded := hstores.load hst source root
        simp only [Stage.effect]
        generalize sv.store.load store source root = loads at *
        generalize sv.store.load store' source root = loads' at *
        rcases loads with ⟨cause | w, m⟩ <;> rcases loads' with ⟨cause' | w', m'⟩ <;> cases hresult
        · exact ⟨rfl, hsession, hloaded⟩
        · exact ⟨rfl, hsession, hloaded⟩
    | replacing w =>
        cases hsession with
        | none => exact ⟨rfl, .none, hstores⟩
        | some h => exact ⟨rfl, .some (h.discardPending.replaceWorkspace w), hstores⟩
  · exact ⟨haside, hsession, hstores⟩

end

/-!
# Steps come to their effects
-/

section

variable {sv : Services σ π} {streams : Set (List UInt8)} {id : SessionId} {e : Engine σ π}
  {s : Session}

/-- The operation and the engine are left as an effect says. -/
structure Effect.Met (o : Effect σ) (sv : Services σ π) (streams : Set (List UInt8))
    (id : SessionId) (stage : Stage) (e : Engine σ π) : Prop where
  stage : stage = o.stage
  left : Outcome.Met ⟨.ok .done, o.session, o.store⟩ sv streams id e

/-- What is hashed for the sessions with the id is among streams that do not collide. -/
structure Prepared (sv : Services σ π) (streams : Set (List UInt8)) (id : SessionId)
    (e : Engine σ π) : Prop where
  schedule : e.schedule.Good sv.backend streams
  ready : ∀ s, e.sessions.get? id = some s → Ready sv streams id e s

theorem advance_of_ends {stage : Stage} {result : Except Error Answer} {e' : Engine σ π}
    (h : (stage.step sv id).Ends e (result.map Stage.answered) e') :
    stage.advance sv id e = (.ended result, e') := by
  cases result with
  | ok answer => exact advance_of_returns h
  | error error => exact advance_of_error h

/-- Without the session, what works on it fails. -/
theorem advance_absent (h : e.sessions.get? id = none) {stage : Stage} (hworks : stage.works) :
    stage.advance sv id e =
      ((stage.effect sv e.config.edits.includeAnalyzers id none e.store).stage, e) := by
  have hfails {op : Operation σ π Stage} (hop : stage.step sv id = op) {error : Error}
      (hrun : op.run e = (.error (.failed error), e)) :
      stage.advance sv id e = (.ended (.error error), e) := by
    unfold Stage.advance
    rw [hop, hrun]
    rfl
  have hfind {α β : Type} (k : Session → Operation σ π α) (l : α → Operation σ π β) :
      ((Operation.find id >>= k) >>= l).run e = (.error (.failed (.sessionNotFound id)), e) :=
    Operation.run_bind_error (Operation.run_find_bind_missing h k) l
  cases stage with
  | asked d =>
      cases d with
      | commit => exact hfails rfl (Operation.run_use_bind_missing h _)
      | refresh => exact hfails rfl (Operation.run_use_bind_missing h _)
      | reload path => exact hfails rfl (Operation.run_find_bind_missing h _)
      | _ => exact hfails rfl (Operation.run_bind_error (run_demand_missing h _) _)
  | writing left report =>
      cases left with
      | nil => exact hfails rfl (hfind _ _)
      | cons edit left => cases hworks
  | folding edit left report => exact hfails rfl (hfind _ _)
  | updating path p content => exact hfails rfl (hfind _ _)
  | replacing w => exact hfails rfl (hfind _ _)
  | _ => cases hworks

/-- The session is left alone, whatever becomes of the store. -/
theorem Prepared.met_self (h : Prepared sv streams id e) (store : σ) :
    Outcome.Met ⟨.ok .done, e.sessions.get? id, store⟩ sv streams id { e with store := store } := by
  refine ⟨rfl, ?_⟩
  cases hs : e.sessions.get? id with
  | none => exact ⟨h.schedule, rfl⟩
  | some s =>
      have hready := h.ready s hs
      exact ⟨s, ⟨hready.schedule, hready.session, hready.keyed, hready.formed⟩, .refl s⟩

theorem Hosts.met (h : Hosts sv streams id e s) {o : Outcome σ}
    (hsession : ∃ t, o.session = some t ∧ t.Like s) (hstore : e.store = o.store) :
    o.Met sv streams id e := by
  rcases hsession with ⟨t, ht, hlike⟩
  unfold Outcome.Met
  rw [ht]
  exact ⟨hstore, s, h, hlike⟩

theorem Hosts.replacing (h : Hosts sv streams id e s) (w : Workspace) :
    Hosts sv streams id (replacing id e s w) (renewed s w) := by
  have hformed : (renewed s w).Formed :=
    ((h.formed.step (.reload w)).step (.enter .clean)).step (.prewarm none)
  exact ((h.abortPrewarm s).left.setSession hformed rfl).updateTables
    (Tables.within_invalidateSession _ _)

/-- The first step of a demand on a session that is there. -/
theorem Ready.asked_meets (h : Ready sv streams id e s)
    (hcompiles : ∀ u, ∃ a, sv.backend.compile u = .compiled a) (d : Demand) :
    (d.effect sv e.config.edits.includeAnalyzers s e.store).Met sv streams id
        ((Stage.asked d).advance sv id e).1 ((Stage.asked d).advance sv id e).2 ∧
      ((Stage.asked d).advance sv id e).2.config = e.config := by
  have hused : ∃ t, some s = some t ∧ t.Like { s with lastAccess := e.clock } :=
    ⟨s, rfl, s.like_use e.clock⟩
  have hwhole (hstep : (Stage.asked d).step sv id = do pure (.answered (← d.operation sv id)))
      (hrefresh : d ≠ .refresh) :
      ∃ e', (Stage.asked d).advance sv id e =
          (.ended (d.outcome sv e.config.edits.includeAnalyzers s e.store).answer, e') ∧
        (d.outcome sv e.config.edits.includeAnalyzers s e.store).Met sv streams id e' ∧
        e'.config = e.config := by
    rcases h.ends_demand hcompiles d fun hd => absurd hd hrefresh with ⟨e', hends, hmet, hconfig⟩
    refine ⟨e', advance_of_ends ?_, hmet, hconfig⟩
    rw [hstep]
    exact hends.map Stage.answered
  cases d with
  | commit =>
      rw [advance_of_returns (step_commit h.session)]
      exact ⟨⟨rfl, h.use.toHosts.met hused rfl⟩, rfl⟩
  | refresh =>
      rw [advance_of_returns (step_refresh h.session)]
      exact ⟨⟨rfl, h.use.toHosts.met hused rfl⟩, rfl⟩
  | reload path =>
      have hself : ∃ t, some s = some t ∧ t.Like s := ⟨s, rfl, .refl s⟩
      simp only [Demand.effect]
      cases hfound : s.workspace.document? (s.workspace.resolve path) with
      | none =>
          rw [advance_of_error (step_missing h.session hfound)]
          exact ⟨⟨rfl, h.toHosts.met hself rfl⟩, rfl⟩
      | some found =>
          rw [advance_of_returns (step_found h.session hfound)]
          exact ⟨⟨rfl, h.toHosts.met hself rfl⟩, rfl⟩
  | _ =>
      rcases hwhole rfl nofun with ⟨e', hadvance, hmet, hconfig⟩
      rw [hadvance]
      exact ⟨⟨rfl, hmet⟩, hconfig⟩

/-- Every step comes to its effect. -/
theorem Prepared.advance_meets (h : Prepared sv streams id e)
    (hcompiles : ∀ u, ∃ a, sv.backend.compile u = .compiled a) (stage : Stage)
    (hbrings : ∀ w s, stage = .replacing w → e.sessions.get? id = some s →
      ∀ p, (Context.ofWorkspace id w).Covered sv.backend.environment streams p) :
    (stage.effect sv e.config.edits.includeAnalyzers id (e.sessions.get? id) e.store).Met sv streams
        id (stage.advance sv id e).1 (stage.advance sv id e).2 ∧
      (stage.advance sv id e).2.config = e.config := by
  by_cases hidle : stage.works
  · cases hs : e.sessions.get? id with
    | none =>
        rw [advance_absent hs hidle]
        refine ⟨⟨rfl, ?_⟩, rfl⟩
        have hself := h.met_self e.store
        rw [hs] at hself
        cases stage with
        | writing left report =>
            cases left with
            | nil => exact hself
            | cons edit left => cases hidle
        | reading path p known => cases hidle
        | loading source root => cases hidle
        | answered answer => cases hidle
        | failed halt => cases hidle
        | _ => exact hself
    | some s =>
        have hready := h.ready s hs
        cases stage with
        | asked d => exact hready.asked_meets hcompiles d
        | writing left report =>
            cases left with
            | nil =>
                rw [advance_of_returns (step_conclude hs report)]
                split
                · have hmarked := hready.toHosts.setSession
                    (hready.formed.step (.enter .committed)) rfl
                  exact ⟨⟨rfl, hmarked.met ⟨s, rfl, ⟨⟨rfl, rfl, rfl, rfl, rfl⟩, rfl⟩⟩ rfl⟩, rfl⟩
                · exact ⟨⟨rfl, hready.toHosts.met ⟨s, rfl, .refl s⟩ rfl⟩, rfl⟩
            | cons edit left => cases hidle
        | folding edit left report =>
            rw [advance_of_returns (step_folding hs edit left report)]
            have hsettled := (hready.toHosts.setSession (hready.formed.settle edit)
              (s.alike_settle edit).id).updateTables (f := fun t =>
                t.invalidateDownstream id (s.settle edit).graph edit.project)
              (Tables.within_invalidateDownstream _ _ _ _)
            refine ⟨⟨?_, hsettled.met ⟨_, rfl, .refl _⟩ rfl⟩, rfl⟩
            simp only [Stage.effect, (s.alike_settle edit).graph]
        | updating path p content =>
            rw [advance_of_returns (step_updating hs path p content)]
            have hid : (((s.updateDocument path content).map Prod.snd).getD s).id = s.id := by
              rw [Session.updateDocument_getD]
            have hgraph : (((s.updateDocument path content).map Prod.snd).getD s).graph =
                s.graph := by
              rw [Session.updateDocument_getD]
            have hupdated := (hready.toHosts.setSession (hready.formed.update path content)
              hid).updateTables (f := fun t => t.invalidateDownstream id
                (((s.updateDocument path content).map Prod.snd).getD s).graph p)
              (Tables.within_invalidateDownstream _ _ _ _)
            refine ⟨⟨?_, hupdated.met ⟨_, rfl, .refl _⟩ rfl⟩, rfl⟩
            simp only [Stage.effect, hgraph]
        | replacing w =>
            rw [advance_of_returns (step_replacing hs w)]
            have hreplacing := hready.toHosts.replacing w
            have hcovered (p : ProjectId) :
                (renewed s w).context.Covered sv.backend.environment streams p := by
              rw [show (renewed s w).context = .ofWorkspace id w from
                congrArg (Context.ofWorkspace · w) hready.keyed]
              exact hbrings w s rfl hs p
            rcases hreplacing.prewarm hcovered with ⟨s', hhosts, hlike, _⟩
            have hrests := rests_replacing id e s w
            have hrenewed : (s.discardPending.replaceWorkspace w).Like (renewed s w) :=
              ⟨⟨rfl, rfl, rfl, rfl, rfl⟩, rfl⟩
            exact ⟨⟨rfl, hhosts.met ⟨_, rfl, hrenewed.trans hlike⟩ hrests.left⟩, hrests.right⟩
        | reading path p known => cases hidle
        | loading source root => cases hidle
        | answered answer => cases hidle
        | failed halt => cases hidle
  · have hself := h.met_self
    cases stage with
    | answered answer => exact ⟨⟨rfl, hself _⟩, rfl⟩
    | failed halt => exact ⟨⟨rfl, hself _⟩, rfl⟩
    | writing left report =>
        cases left with
        | nil => exact absurd rfl hidle
        | cons edit left =>
            simp only [Stage.effect]
            rcases hwrite : sv.store.write e.store edit.path edit.text with ⟨cause | _, store⟩
            · rw [advance_of_returns (step_refused hwrite left report)]
              exact ⟨⟨rfl, hself store⟩, rfl⟩
            · rw [advance_of_returns (step_written hwrite left report)]
              exact ⟨⟨rfl, hself store⟩, rfl⟩
    | reading path p known =>
        simp only [Stage.effect]
        cases hread : sv.store.read e.store path with
        | error cause =>
            rw [advance_of_error (step_unreadable hread p known)]
            exact ⟨⟨rfl, hself _⟩, rfl⟩
        | ok content =>
            rw [advance_of_returns (step_read hread p known)]
            exact ⟨⟨rfl, hself _⟩, rfl⟩
    | loading source root =>
        simp only [Stage.effect]
        rcases hload : sv.store.load e.store source root with ⟨cause | w, store⟩
        · rw [advance_of_error (step_unloadable hload)]
          exact ⟨⟨rfl, hself store⟩, rfl⟩
        · rw [advance_of_returns (step_loaded hload)]
          exact ⟨⟨rfl, hself store⟩, rfl⟩
    | _ => exact absurd rfl hidle

end

end Engine
end Ripple
