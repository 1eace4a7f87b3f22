import Ripple.Proofs.Engine.Beside

/-!
# Calls leg by leg

A session is started in two steps: a workspace is loaded, and then it is put into a new
session. All other calls are operations on a session that has been started. A leg says
how far a call of either kind is.
-/

namespace Ripple

open Cache

variable {σ π : Type}

namespace Context

/-- The session that something is compiled for has no part in what is hashed. -/
theorem Covered.withSession {ctx : Context} {environment : String} {streams : Set (List UInt8)}
    {p : ProjectId} (h : ctx.Covered environment streams p) (session : SessionId) :
    ({ ctx with session := session } : Context).Covered environment streams p where
  fits := ⟨h.fits.projects, h.fits.nodes⟩
  mem stream hstream := by
    refine h.mem stream ?_
    induction hstream with
    | own hp hfound => exact .own hp hfound
    | dependency hc _ ih => exact .dependency hc (ih (h.below hc))

end Context

namespace Engine

/-- Puts a workspace that has been loaded into a new session. -/
def openSession (sv : Services σ π) (source : Source) (root : Path) (choice : AnalyzerChoice)
    (w : Workspace) : Operation σ π SessionId :=
  match sv.analyzers choice with
  | .error cause => Operation.fail (.analyzersNotLoaded cause)
  | .ok analyzers => do
      let e ← get
      let s := Session.start e.nextId root source analyzers w e.clock
      set ({ e with started := e.started + 1 }.setSession s |>.prewarm s)
      pure s.id

theorem start_eq (sv : Services σ π) (source : Source) (root : Path) (choice : AnalyzerChoice) :
    start sv source root choice = (do
      let w ← Operation.load sv source root
      openSession sv source root choice w) := rfl

inductive Leg where
  | starting (source : Source) (root : Path) (choice : AnalyzerChoice)
  /-- A workspace has been loaded and is in no session yet. -/
  | opening (source : Source) (root : Path) (choice : AnalyzerChoice) (w : Workspace)
  | serving (stage : Stage)

namespace Leg

/-- The next leg, for whoever has started a session or is about to. -/
def advance (sv : Services σ π) (id? : Option SessionId) (e : Engine σ π) :
    Leg → Leg × Option SessionId × Engine σ π
  | starting source root choice =>
      match (Operation.load sv source root).run e with
      | (.ok w, e) => (opening source root choice w, id?, e)
      | (.error halt, e) => (serving (.failed halt), id?, e)
  | opening source root choice w =>
      match (openSession sv source root choice w).run e with
      | (.ok id, e) => (serving (.answered .done), some id, e)
      | (.error halt, e) => (serving (.failed halt), id?, e)
  | serving stage =>
      match id? with
      | none => (serving stage, none, e)
      | some id =>
          let (stage, e) := stage.advance sv id e
          (serving stage, some id, e)

/-- What the call has come to; the session that it is for is not told. -/
def answer? : Leg → Option (Except Halt Answer)
  | serving (.answered answer) => some (.ok answer)
  | serving (.failed halt) => some (.error halt.aside)
  | _ => none

def aside : Leg → Leg
  | serving stage => serving stage.aside
  | leg => leg

def looks : Leg → Bool
  | starting _ _ _ => true
  | opening _ _ _ _ => false
  | serving stage => stage.looks

def writes? : Leg → Option Path
  | serving stage => stage.writes?
  | _ => none

/-- A session is started by the next step. -/
def opens (sv : Services σ π) : Leg → Bool
  | opening _ _ choice _ => (sv.analyzers choice).isOk
  | _ => false

theorem eq_or_failed {leg leg' : Leg} (h : leg'.aside = leg.aside) :
    leg' = leg ∨ ∃ halt halt', leg = serving (.failed halt) ∧ leg' = serving (.failed halt') := by
  cases leg with
  | serving stage =>
      cases leg' with
      | serving stage' =>
          rcases stage.eq_or_failed (Leg.serving.inj h) with rfl | ⟨halt, halt', rfl, rfl⟩
          · exact .inl rfl
          · exact .inr ⟨halt, halt', rfl, rfl⟩
      | _ => cases h
  | _ =>
      cases leg' <;> cases h
      exact .inl rfl

theorem opens_congr {leg leg' : Leg} (h : leg'.aside = leg.aside) (sv : Services σ π) :
    leg'.opens sv = leg.opens sv := by
  rcases eq_or_failed h with rfl | ⟨halt, halt', rfl, rfl⟩ <;> rfl

/-!
# What a leg comes to
-/

/-- What a leg comes to without a cache: the next leg, the session and the store. -/
structure Effect (σ : Type) where
  leg : Leg
  session : Option Session
  store : σ

/-- The id and the times of the new session are of no interest. -/
def effect (sv : Services σ π) (analyzed : Bool) (id? : Option SessionId) (s? : Option Session)
    (store : σ) : Leg → Leg.Effect σ
  | starting source root choice =>
      match sv.store.load store source root with
      | (.error cause, store) => ⟨serving (.ended (.error (.loadFailed root cause))), s?, store⟩
      | (.ok w, store) => ⟨opening source root choice w, s?, store⟩
  | opening source root choice w =>
      match sv.analyzers choice with
      | .error cause => ⟨serving (.ended (.error (.analyzersNotLoaded cause))), s?, store⟩
      | .ok analyzers =>
          ⟨serving (.answered .done), some (.start ⟨""⟩ root source analyzers w 0), store⟩
  | serving stage =>
      match id? with
      | none => ⟨serving stage, s?, store⟩
      | some id =>
          let o := stage.effect sv analyzed id s? store
          ⟨serving o.stage, o.session, o.store⟩

/-- Two effects differ in session ids, in what answers do not depend on, and in what
others have written. -/
structure Effect.Like (st : Store σ) (files : Set Path) (alike : σ → σ → Prop) (alone : Prop)
    (o o' : Leg.Effect σ) : Prop where
  leg : o'.leg.aside = o.leg.aside
  session : Option.Rel Session.Like o.session o'.session
  store : st.Paired files alike alone o.store o'.store

variable {sv : Services σ π} {files : Set Path} {alike : σ → σ → Prop} {alone : Prop}
  {leg leg' : Leg} {s? s?' : Option Session} {store store' : σ} {id? id?' : Option SessionId}

theorem effect_like (hst : sv.store.Discreet files alike) (haside : leg'.aside = leg.aside)
    (hsession : Option.Rel Session.Like s? s?')
    (hstores : sv.store.Paired files alike alone store store') (hlooks : leg.looks → alone)
    (hwrites : ∀ path, leg.writes? = some path → path ∈ files) (analyzed : Bool)
    (hstarted : id?'.isSome = id?.isSome) :
    Effect.Like sv.store files alike alone (leg.effect sv analyzed id? s? store)
      (leg'.effect sv analyzed id?' s?' store') := by
  cases leg with
  | starting source root choice =>
      cases leg' <;> cases haside
      have hresult := hst.load (hstores.alike (hlooks rfl)) source root
      have hloaded := hstores.load hst source root
      simp only [effect]
      generalize sv.store.load store source root = loads at *
      generalize sv.store.load store' source root = loads' at *
      rcases loads with ⟨cause | w, m⟩ <;> rcases loads' with ⟨cause' | w', m'⟩ <;> cases hresult
      · exact ⟨rfl, hsession, hloaded⟩
      · exact ⟨rfl, hsession, hloaded⟩
  | opening source root choice w =>
      cases leg' <;> cases haside
      simp only [effect]
      cases sv.analyzers choice with
      | error cause => exact ⟨rfl, hsession, hstores⟩
      | ok analyzers => exact ⟨rfl, .some (.refl _), hstores⟩
  | serving stage =>
      cases leg' with
      | serving stage' =>
          have hstages : stage'.aside = stage.aside := Leg.serving.inj haside
          cases id? with
          | none =>
              cases id?' with
              | none => exact ⟨haside, hsession, hstores⟩
              | some id' => cases hstarted
          | some id =>
              cases id?' with
              | none => cases hstarted
              | some id' =>
                  have hlike := Stage.effect_like hst hstages hsession hstores hlooks hwrites
                    analyzed id id'
                  exact ⟨congrArg serving hlike.stage, hlike.session, hlike.store⟩
      | _ => cases haside

/-- A file has been written by the next step. -/
def wrote (st : Store σ) (store : σ) : Leg → Bool
  | serving (.writing (edit :: _) _) => (st.write store edit.path edit.text).1.isOk
  | _ => false

/-- What someone else does to the store makes no difference unless a file is written. -/
theorem paired_effect (hst : sv.store.Discreet files alike)
    (hstores : sv.store.Paired files alike alone store store')
    (hwrites : ∀ path, leg.writes? = some path → path ∈ files) {alone' : Prop}
    (halone : alone' → alone) (hothers : leg.wrote sv.store store → ¬ alone') (analyzed : Bool) :
    sv.store.Paired files alike alone' (leg.effect sv analyzed id? s? store).store store' := by
  have hsame := hstores.imp halone
  have hloaded := hsame.load_left hst
  cases leg with
  | starting source root choice =>
      have hload := hloaded source root
      simp only [effect]
      generalize sv.store.load store source root = loads at *
      rcases loads with ⟨cause | w, m⟩ <;> exact hload
  | opening source root choice w =>
      simp only [effect]
      cases sv.analyzers choice <;> exact hsame
  | serving stage =>
      cases id? with
      | none => exact hsame
      | some id =>
          simp only [effect]
          cases stage with
          | writing left report =>
              cases left with
              | nil => cases s? <;> exact hsame
              | cons edit left =>
                  have hpath : edit.path ∈ files := hwrites _ rfl
                  simp only [Stage.effect]
                  rcases hwrite : sv.store.write store edit.path edit.text with ⟨cause | _, m⟩
                  · have halike := hst.unwritten hsame.left edit.path hpath edit.text cause
                      (congrArg Prod.fst hwrite)
                    rw [hwrite] at halike
                    exact hsame.trans_left hst halike
                  · have hwrote :
                        (serving (.writing (edit :: left) report)).wrote sv.store store := by
                      simp only [wrote, hwrite]
                      rfl
                    have hleft := hstores.write_left hst hpath edit.text (hothers hwrote)
                    rw [hwrite] at hleft
                    exact hleft
          | reading path p known =>
              simp only [Stage.effect]
              cases sv.store.read store path <;> exact hsame
          | loading source root =>
              have hload := hloaded source root
              simp only [Stage.effect]
              generalize sv.store.load store source root = loads at *
              rcases loads with ⟨cause | w, m⟩ <;> exact hload
          | asked d =>
              cases s? with
              | none => exact hsame
              | some s =>
                  simp only [Stage.effect, d.effect_store]
                  exact hsame
          | answered answer => exact hsame
          | failed halt => exact hsame
          | _ => cases s? <;> exact hsame

end Leg

/-!
# Engines that a session stands in
-/

section

variable {sv : Services σ π} {streams : Set (List UInt8)} {id : SessionId}
  {id? : Option SessionId} {e e' : Engine σ π} {s : Session}

/-- The session of someone who may have started one. -/
def session? (e : Engine σ π) (id? : Option SessionId) : Option Session :=
  id?.bind e.sessions.get?

/-- What is in the cache is right, and so is the session if it is there. -/
structure Stands (sv : Services σ π) (streams : Set (List UInt8)) (id? : Option SessionId)
    (e : Engine σ π) : Prop where
  schedule : e.schedule.Good sv.backend streams
  session : ∀ id s, id? = some id → e.sessions.get? id = some s → s.id = id ∧ s.Formed

/-- What is hashed for a session is among streams. -/
structure Familiar (sv : Services σ π) (streams : Set (List UInt8)) (s : Session) : Prop where
  named : Named streams s.analyzers
  covered : ∀ p, s.context.Covered sv.backend.environment streams p

theorem Familiar.like {s' : Session} (h : Familiar sv streams s) (hlike : s.Like s') :
    Familiar sv streams s' where
  named := hlike.analyzers ▸ h.named
  covered p := by
    have hcontext : s'.context = { s.context with session := s'.id } := by
      simp only [Session.context, hlike.workspace, hlike.graph]
    exact hcontext ▸ (h.covered p).withSession s'.id

theorem Stands.prepared (h : Stands sv streams (some id) e)
    (hfree : CollisionFree sv.backend.environment streams)
    (hfamiliar : ∀ s, e.sessions.get? id = some s → Familiar sv streams s) :
    Prepared sv streams id e where
  schedule := h.schedule
  ready s hs := by
    have hown := h.session id s rfl hs
    exact ⟨⟨h.schedule, hs, hown.left, hown.right⟩, hfree, (hfamiliar s hs).named,
      (hfamiliar s hs).covered⟩

/-- The session is left as a session says, up to what answers do not depend on. -/
theorem Stands.of_met {o : Outcome σ} (h : o.Met sv streams id e) :
    Stands sv streams (some id) e ∧ e.store = o.store ∧
      Option.Rel Session.Like o.session (e.session? (some id)) := by
  unfold Outcome.Met at h
  rcases h with ⟨hstore, hleft⟩
  change _ ∧ _ ∧ Option.Rel Session.Like o.session (e.sessions.get? id)
  cases ho : o.session with
  | none =>
      rw [ho] at hleft
      rcases hleft with ⟨hgood, hmissing⟩
      refine ⟨⟨hgood, ?_⟩, hstore, ?_⟩
      · rintro _ s ⟨⟩ hs
        cases hmissing.symm.trans hs
      · rw [hmissing]
        exact .none
  | some t =>
      rw [ho] at hleft
      rcases hleft with ⟨s, hhosts, hlike⟩
      refine ⟨⟨hhosts.schedule, ?_⟩, hstore, ?_⟩
      · rintro _ s' ⟨⟩ hs'
        cases hhosts.session.symm.trans hs'
        exact ⟨hhosts.keyed, hhosts.formed⟩
      · rw [hhosts.session]
        exact .some hlike

theorem Stands.of_hosts (h : Hosts sv streams id e s) : Stands sv streams (some id) e := by
  refine ⟨h.schedule, ?_⟩
  rintro _ s' ⟨⟩ hs'
  cases h.session.symm.trans hs'
  exact ⟨h.keyed, h.formed⟩

/-- The engine that a new session is put into, before the leaves are compiled ahead. -/
def opening (e : Engine σ π) (root : Path) (source : Source) (analyzers : AnalyzerSet)
    (w : Workspace) : Engine σ π :=
  { e with started := e.started + 1 }.setSession
    (.start e.nextId root source analyzers w e.clock)

theorem returns_openSession {choice : AnalyzerChoice} {analyzers : AnalyzerSet}
    (hchoice : sv.analyzers choice = .ok analyzers) (source : Source) (root : Path)
    (w : Workspace) :
    (openSession sv source root choice w).Returns e e.nextId
      ((e.opening root source analyzers w).prewarm
        (.start e.nextId root source analyzers w e.clock)) := by
  unfold openSession
  rw [hchoice]
  rfl

theorem ends_openSession {choice : AnalyzerChoice} {cause : String}
    (hchoice : sv.analyzers choice = .error cause) (source : Source) (root : Path)
    (w : Workspace) :
    (openSession sv source root choice w).Ends e (.error (.analyzersNotLoaded cause)) e := by
  unfold openSession
  rw [hchoice]
  rfl

theorem get?_opening (e : Engine σ π) (root : Path) (source : Source) (analyzers : AnalyzerSet)
    (w : Workspace) :
    (e.opening root source analyzers w).sessions.get? e.nextId =
      some (.start e.nextId root source analyzers w e.clock) :=
  get?_setSession rfl

end

/-!
# Legs come to their effects
-/

section

variable {sv : Services σ π} {streams : Set (List UInt8)} {id? : Option SessionId}
  {e : Engine σ π}

/-- A workspace is put into a session by the next step. -/
def Leg.Brings (sv : Services σ π) (s? : Option Session) (w : Workspace) : Leg → Prop
  | .opening _ _ choice w' => w' = w ∧ ∃ analyzers, sv.analyzers choice = .ok analyzers
  | .serving (.replacing w') => w' = w ∧ s?.isSome
  | _ => False

theorem Leg.Brings.congr {s? s?' : Option Session} {w : Workspace} {leg leg' : Leg}
    (h : leg'.Brings sv s?' w) (haside : leg'.aside = leg.aside)
    (hsession : Option.Rel Session.Like s? s?') : leg.Brings sv s? w := by
  rcases Leg.eq_or_failed haside with rfl | ⟨halt, halt', rfl, rfl⟩
  · cases leg' with
    | serving stage =>
        cases stage with
        | replacing w' =>
            refine ⟨h.left, ?_⟩
            cases hsession with
            | none => exact h.right
            | some _ => rfl
        | _ => exact h
    | _ => exact h
  · exact h.elim

/-- What a workspace is brought by has it in the session afterwards. -/
theorem Leg.exists_brought
    (hkeyed : ∀ id s, id? = some id → e.sessions.get? id = some s → s.id = id) {leg : Leg} {w : Workspace} (hbrings : leg.Brings sv (e.session? id?) w) :
    ∃ id s, (leg.advance sv id? e).2.2.sessions.get? id = some s ∧
      s.context = .ofWorkspace id w := by
  cases leg with
  | opening source root choice w' =>
      rcases hbrings with ⟨rfl, analyzers, hchoice⟩
      rcases get?_prewarm (get?_opening e root source analyzers w') rfl with ⟨batch, hbatch⟩
      refine ⟨e.nextId, { Session.start e.nextId root source analyzers w' e.clock with
        prewarm := batch }, ?_, rfl⟩
      unfold Leg.advance
      simp only
      rw [returns_openSession hchoice source root w']
      exact hbatch
  | serving stage =>
      cases stage with
      | replacing w' =>
          rcases hbrings with ⟨rfl, hsession⟩
          cases id? with
          | none => cases hsession
          | some id =>
              rcases Option.isSome_iff_exists.mp hsession with ⟨s, hs⟩
              have hs : e.sessions.get? id = some s := hs
              have hid : s.id = id := hkeyed id s rfl hs
              have hreplacing : (replacing id e s w').sessions.get? id = some (renewed s w') :=
                get?_setSession hid
              rcases get?_prewarm hreplacing hid with ⟨batch, hbatch⟩
              refine ⟨id, { renewed s w' with prewarm := batch }, ?_, ?_⟩
              · unfold Leg.advance
                simp only
                rw [advance_of_returns (step_replacing hs w')]
                exact hbatch
              · exact congrArg (Context.ofWorkspace · w') hid
      | _ => cases hbrings
  | _ => cases hbrings

/-- Every leg comes to its effect. -/
theorem Leg.advance_meets (h : Stands sv streams id? e)
    (hfree : CollisionFree sv.backend.environment streams)
    (hcompiles : ∀ u, ∃ a, sv.backend.compile u = .compiled a)
    (hfamiliar : ∀ s, e.session? id? = some s → Familiar sv streams s) (leg : Leg)
    (hbrings : ∀ w, leg.Brings sv (e.session? id?) w → ∀ id p,
      (Context.ofWorkspace id w).Covered sv.backend.environment streams p) :
    let o := leg.effect sv e.config.edits.includeAnalyzers id? (e.session? id?) e.store
    let (leg', id?', e') := leg.advance sv id? e
    leg' = o.leg ∧ Option.Rel Session.Like o.session (e'.session? id?') ∧ e'.store = o.store ∧
      e'.config = e.config ∧ Stands sv streams id?' e' := by
  have hself : Option.Rel Session.Like (e.session? id?) (e.session? id?) := by
    cases e.session? id? with
    | none => exact .none
    | some s => exact .some (.refl s)
  cases leg with
  | starting source root choice =>
      simp only [Leg.advance, Leg.effect]
      have hends := Operation.ends_load sv source root e
      rcases hload : sv.store.load e.store source root with ⟨cause | w, store⟩
      · rw [hload] at hends
        rw [show (Operation.load sv source root).run e = _ from hends]
        exact ⟨rfl, hself, rfl, rfl, h.schedule, h.session⟩
      · rw [hload] at hends
        rw [show (Operation.load sv source root).run e = _ from hends]
        exact ⟨rfl, hself, rfl, rfl, h.schedule, h.session⟩
  | opening source root choice w =>
      simp only [Leg.advance, Leg.effect]
      cases hchoice : sv.analyzers choice with
      | error cause =>
          rw [show (openSession sv source root choice w).run e = _ from
            ends_openSession hchoice source root w]
          exact ⟨rfl, hself, rfl, rfl, h⟩
      | ok analyzers =>
          rw [show (openSession sv source root choice w).run e = _ from
            returns_openSession hchoice source root w]
          have hhosts : Hosts sv streams e.nextId (e.opening root source analyzers w)
              (.start e.nextId root source analyzers w e.clock) :=
            ⟨h.schedule, get?_opening e root source analyzers w, rfl,
              Session.formed_start _ _ _ _ _ _⟩
          rcases hhosts.prewarm (hbrings w ⟨rfl, analyzers, hchoice⟩ e.nextId) with
            ⟨s', hhosts', hlike, hrests⟩
          have hstarted : (Session.start ⟨""⟩ root source analyzers w 0).Like
              (.start e.nextId root source analyzers w e.clock) := ⟨⟨rfl, rfl, rfl, rfl, rfl⟩, rfl⟩
          refine ⟨rfl, ?_, hrests.left, hrests.right, .of_hosts hhosts'⟩
          change Option.Rel Session.Like _ (Table.get? _ e.nextId)
          rw [hhosts'.session]
          exact .some (hstarted.trans hlike)
  | serving stage =>
      cases id? with
      | none => exact ⟨rfl, hself, rfl, rfl, h⟩
      | some id =>
          have hprepared := h.prepared hfree hfamiliar
          have hmeets := hprepared.advance_meets hcompiles stage (by
            rintro w s rfl hs
            exact hbrings w ⟨rfl, Option.isSome_iff_exists.mpr ⟨s, hs⟩⟩ id)
          rcases hmeets with ⟨⟨hstage, hleft⟩, hconfig⟩
          rcases Stands.of_met hleft with ⟨hstands, hstore, hsession⟩
          exact ⟨congrArg Leg.serving hstage, hsession, hstore, hconfig, hstands⟩

/-!
# What a leg leaves to the others
-/

/-- Only one session is worked on, if any, and no task. -/
structure Keeping (id? : Option SessionId) (e e' : Engine σ π) : Prop where
  others : ∀ other, id? ≠ some other → e'.sessions.get? other = e.sessions.get? other
  tasks : e'.schedule.machine.tasks = e.schedule.machine.tasks
  formed : e.schedule.Formed → e'.schedule.Formed

theorem Beside.keeping {id : SessionId} {e' : Engine σ π} (h : Beside id e e') :
    Keeping (some id) e e' :=
  ⟨fun other hother => h.others other fun heq => hother (congrArg some heq.symm), h.tasks, h.formed⟩

/-- A new session has a new id, and otherwise nobody's id changes. -/
def Numbers (id? id?' : Option SessionId) (e e' : Engine σ π) : Prop :=
  id?' = id? ∧ e'.started = e.started ∨ id?' = some e.nextId ∧ e'.started = e.started + 1

theorem Leg.isSome_advance (sv : Services σ π) (id? : Option SessionId) (e : Engine σ π)
    (leg : Leg) : (leg.advance sv id? e).2.1.isSome = (id?.isSome || leg.opens sv) := by
  cases leg with
  | starting source root choice =>
      simp only [Leg.advance, Leg.opens, Bool.or_false]
      split <;> rfl
  | opening source root choice w =>
      simp only [Leg.advance, Leg.opens]
      cases hchoice : sv.analyzers choice with
      | error cause =>
          rw [show (openSession sv source root choice w).run e = _ from
            ends_openSession hchoice source root w]
          exact (Bool.or_false _).symm
      | ok analyzers =>
          rw [show (openSession sv source root choice w).run e = _ from
            returns_openSession hchoice source root w]
          exact (Bool.or_true _).symm
  | serving stage => cases id? <;> rfl

/-- A leg that does not turn to the cache leaves the others alone. -/
theorem Leg.keeping_advance (sv : Services σ π) (id? : Option SessionId)
    (hkeyed : ∀ id s, e.sessions.get? id = some s → s.id = id) (leg : Leg)
    (hleg : ∀ d, leg = .serving (.asked d) → d.consults → e.session? id? = none) :
    let (_, id?', e') := leg.advance sv id? e
    Keeping id?' e e' ∧ Numbers id? id?' e e' := by
  have hsame (store : σ) : Keeping id? e { e with store := store } ∧
      Numbers id? id? e { e with store := store } :=
    ⟨⟨fun _ _ => rfl, rfl, fun h => h⟩, .inl ⟨rfl, rfl⟩⟩
  cases leg with
  | starting source root choice =>
      simp only [Leg.advance]
      have hends := Operation.ends_load sv source root e
      rcases hload : sv.store.load e.store source root with ⟨cause | w, store⟩
      · rw [hload] at hends
        rw [show (Operation.load sv source root).run e = _ from hends]
        exact hsame store
      · rw [hload] at hends
        rw [show (Operation.load sv source root).run e = _ from hends]
        exact hsame store
  | opening source root choice w =>
      simp only [Leg.advance]
      cases hchoice : sv.analyzers choice with
      | error cause =>
          rw [show (openSession sv source root choice w).run e = _ from
            ends_openSession hchoice source root w]
          exact hsame e.store
      | ok analyzers =>
          rw [show (openSession sv source root choice w).run e = _ from
            returns_openSession hchoice source root w]
          have hcounted : Beside e.nextId { e with started := e.started + 1 }
              { e with started := e.started + 1 } := .refl (hkeyed e.nextId)
          have hopened : Beside e.nextId { e with started := e.started + 1 }
              (e.opening root source analyzers w) := hcounted.setSession rfl
          have hbeside := hopened.prewarm
            (s := .start e.nextId root source analyzers w e.clock) rfl
          have hkeeping := hbeside.keeping
          exact ⟨⟨hkeeping.others, hkeeping.tasks, hkeeping.formed⟩, .inr ⟨rfl, hbeside.started⟩⟩
  | serving stage =>
      cases id? with
      | none => exact hsame e.store
      | some id =>
          have hbeside := stage.beside_advance sv (hkeyed id) fun d hd =>
            hleg d (congrArg Leg.serving hd)
          exact ⟨hbeside.keeping, .inl ⟨rfl, hbeside.started⟩⟩

end

end Engine
end Ripple
