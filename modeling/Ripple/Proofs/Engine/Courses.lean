import Ripple.Proofs.Cache.Pursuit
import Ripple.Proofs.Engine.Legs

/-!
# Calls that turn to the cache

Diagnostics and edits have plans carried out. Between any two moves of a plan others may
come in. What comes of the plans is what the session lists that they were made for, and
what becomes of that session in the meantime has no part in it.
-/

namespace Ripple

open Cache

variable {σ π α β : Type}

/-!
# Plans one after the other
-/

namespace Cache.Schedule

theorem drive_bind (b : Backend π) (p : Plan π α) (k : α → Plan π β) (s : Schedule π) :
    drive b (p.bind k) s =
      match drive b p s with
      | (.returned a, s) => drive b (k a) s
      | (.blocked, s) => (.blocked, s)
      | (.panicked, s) => (.panicked, s) := by
  induction p generalizing s with
  | done a => rfl
  | request ctx id next ih =>
      simp only [Plan.bind, drive]
      rcases s.request b ctx id with ⟨r, s₁⟩
      simp only
      cases r.result? s₁.machine with
      | some result => exact ih result s₁
      | none =>
          simp only
          cases r.result? (s₁.settle b).machine with
          | some result => exact ih result _
          | none => rfl
  | compile u next ih =>
      simp only [Plan.bind, drive]
      split
      · rcases (s.recordCall u).answer b u with _ | ⟨result, s₁⟩
        · rfl
        · exact ih result s₁
      · rfl
  | consult key next ih => exact ih _ s
  | file key f ds next ih => exact ih _ _

end Cache.Schedule

theorem Operation.run_perform_bind (sv : Services σ π) (p : Plan π α) (k : α → Plan π β)
    (e : Engine σ π) :
    (perform sv (p.bind k)).run e = (perform sv p >>= fun a => perform sv (k a)).run e := by
  have hrun {γ : Type} (q : Plan π γ) (e : Engine σ π) : (perform sv q).run e =
      ((ofExit (e.schedule.drive sv.backend q).1).run
        { e with schedule := (e.schedule.drive sv.backend q).2 }) := rfl
  rw [Operation.run_bind, hrun, hrun, Schedule.drive_bind]
  rcases e.schedule.drive sv.backend p with ⟨exit, s⟩
  cases exit with
  | returned a => exact (hrun (k a) { e with schedule := s }).symm
  | _ => rfl

/-- What follows an operation does not matter for what comes before it. -/
theorem Operation.run_bind_of_run_eq {op op' : Operation σ π α} {e : Engine σ π}
    (h : op.run e = op'.run e) (k : α → Operation σ π β) :
    (op >>= k).run e = (op' >>= k).run e := by
  rw [run_bind, run_bind, h]

namespace Engine

/-- Lists projects one after the other. -/
def entriesPlan (b : Backend π) (s : Session) (analyzed : Bool) :
    List ProjectId → Plan π (List ProjectDiagnostics)
  | [] => .done []
  | p :: ps =>
      (Plan.diagnostics b s.context p s.analyzers analyzed).run.bind fun result =>
        (entriesPlan b s analyzed ps).bind fun entries => .done (entryOf p result :: entries)

/-- Lists one project, or all. -/
def reportPlan (b : Backend π) (s : Session) (analyzed : Bool) :
    Option ProjectId → Plan π (Except Error DiagnosticsReport)
  | some p =>
      (Plan.diagnostics b s.context p s.analyzers analyzed).run.bind fun result =>
        .done (result.map fun ds => ⟨[⟨p, ds.value, none⟩]⟩)
  | none =>
      (entriesPlan b s analyzed s.graph.topologicalOrder).bind fun entries => .done (.ok ⟨entries⟩)

variable {sv : Services σ π} {streams : Set (List UInt8)} {id : SessionId} {e : Engine σ π}
  {s : Session}

theorem run_entriesPlan (sv : Services σ π) (s : Session) (analyzed : Bool) (ps : List ProjectId)
    (e : Engine σ π) :
    (Operation.perform sv (entriesPlan sv.backend s analyzed ps)).run e =
      (ps.mapM fun p => do
        pure (entryOf p (← projectDiagnostics sv s analyzed p)) :
          Operation σ π (List ProjectDiagnostics)).run e := by
  induction ps generalizing e with
  | nil => rfl
  | cons p ps ih =>
      rw [List.mapM_cons, entriesPlan, Operation.run_perform_bind, bind_assoc]
      refine Operation.run_bind_congr fun result e₁ _ => ?_
      rw [Operation.run_perform_bind, pure_bind, Operation.run_bind, Operation.run_bind, ih]
      rfl

/-- Diagnostics are what the plan comes to that is made for the session as it is. -/
theorem run_diagnostics_eq (hs : e.sessions.get? id = some s) (project? : Option ProjectId)
    (analyze? : Option Bool) :
    (diagnostics sv id project? analyze?).run e =
      (Operation.perform sv (reportPlan sv.backend { s with lastAccess := e.clock }
        (analyze?.getD e.config.edits.includeAnalyzers) project?) >>= Operation.ofExcept).run
        (e.setSession { s with lastAccess := e.clock }) := by
  have huse : (Operation.use id).Returns e { s with lastAccess := e.clock }
      (e.setSession { s with lastAccess := e.clock }) :=
    Operation.returns_use_iff.mpr ⟨s, hs, rfl, rfl⟩
  unfold diagnostics
  refine (huse.run_bind _).trans ?_
  refine ((Operation.returns_get_iff.mpr ⟨rfl, rfl⟩).run_bind _).trans ?_
  cases project? with
  | some p =>
      refine Eq.trans ?_ (Operation.run_bind_of_run_eq (Operation.run_perform_bind sv _ _ _) _).symm
      rw [bind_assoc]
      refine Operation.run_bind_congr fun result e₁ _ => ?_
      cases result <;> rfl
  | none =>
      refine Eq.trans ?_ (Operation.run_bind_of_run_eq (Operation.run_perform_bind sv _ _ _) _).symm
      rw [bind_assoc]
      refine (Operation.run_bind_of_run_eq (run_entriesPlan sv _ _ _ _).symm _).trans ?_
      exact Operation.run_bind_congr fun entries e₁ _ => rfl

theorem setSession_setSession {t : Session} (h : t.id = s.id) (e : Engine σ π) :
    (e.setSession s).setSession t = e.setSession t := by
  have hrows (k : SessionId) (rows : List (SessionId × Session)) :
      Table.insertRow k t (Table.insertRow k s rows) = Table.insertRow k t rows := by
    induction rows with
    | nil => simp only [Table.insertRow, if_true]
    | cons row rows ih =>
        by_cases hk : row.1 = k
        · simp only [Table.insertRow, hk, if_true]
        · simp only [Table.insertRow, hk, if_false, ih]
  unfold setSession
  rw [h]
  exact congrArg (fun rows => { e with sessions := ⟨rows⟩ }) (hrows s.id e.sessions.rows)

/-- A batch is staged, and then its impact is worked out for the session as it is then. -/
theorem Hosts.run_applyEdits_eq (h : Hosts sv streams id e s) {edits : List DocumentEdit}
    (hedits : edits ≠ []) :
    let staged := e.stagedIn s edits
    (applyEdits sv id edits).run e =
      (do
        let found ← Operation.performAll sv (turns staged.2.graph)
          ((affected staged.2.graph (staged.1.filterMap EditResult.project)).map
            (impactPlan sv.backend staged.2.context staged.2.overrides staged.2.analyzers
              e.config.edits.includeAnalyzers))
        pure ⟨staged.1, found⟩ : Operation σ π EditOutcome).run (e.setSession staged.2) := by
  intro staged
  have hset : (e.setSession { s with lastAccess := e.clock }).setSession staged.2 =
      e.setSession staged.2 :=
    setSession_setSession (s := { s with lastAccess := e.clock }) (h.staged_stagedIn edits).id e
  rw [← hset]
  refine (run_applyEdits h.session hedits).trans ?_
  refine Operation.run_bind_of_run_eq ?_ _
  unfold impacts
  exact (Operation.returns_get_iff.mpr ⟨rfl, rfl⟩).run_bind _

/-!
# What is to be found out
-/

/-- Plans that are carried out side by side, and what is made of what they find. -/
structure Work (π : Type) : Type 1 where
  Finding : Type
  plans : List (Plan π Finding)
  conclude : List Finding → Except Error Answer

/-- The work that a batch makes of which the edits are staged. -/
def batchWork (b : Backend π) (analyzed : Bool) (staged : List EditResult × Session)
    (answer : EditOutcome → Except Error EditOutcome) : Work π where
  Finding := Impact
  plans := (affected staged.2.graph (staged.1.filterMap EditResult.project)).map
    (impactPlan b staged.2.context staged.2.overrides staged.2.analyzers analyzed)
  conclude found := (answer ⟨staged.1, found⟩).map .edited

/-- The session as the demand leaves it at once, and what is then to be found out for it. -/
def Demand.work? (b : Backend π) (analyzed : Bool) (now : Nat) (s : Session) :
    Demand → Option (Session × Work π)
  | .diagnostics project? analyze? =>
      let s := { s with lastAccess := now }
      some (s, ⟨Except Error DiagnosticsReport,
        [reportPlan b s (analyze?.getD analyzed) project?],
        fun found => (found.headD (.error .cancelled)).map .diagnosed⟩)
  | .applyEdit edit =>
      let staged := stageAll s.workspace [edit] { s with lastAccess := now }
      some (staged.2, batchWork b analyzed staged EditOutcome.alone)
  | .applyEdits edits =>
      let staged := stageAll s.workspace edits { s with lastAccess := now }
      if edits.isEmpty then none else some (staged.2, batchWork b analyzed staged .ok)
  | _ => none

theorem Ready.yields_entries (h : Ready sv streams id e s)
    (hcompiles : ∀ u, ∃ a, sv.backend.compile u = .compiled a) (analyzed : Bool)
    (ps : List ProjectId) :
    (entriesPlan sv.backend s analyzed ps).Yields sv.backend streams
      (· = ps.map fun p => entryOf p (s.held sv.backend analyzed p)) := by
  induction ps with
  | nil => rfl
  | cons p ps ih =>
      apply Plan.ensures_bind
      refine (Plan.ensures_diagnostics h.free h.named analyzed (h.covered p)).imp ?_
      intro result hallows
      have hresult := h.map_value_eq_listing hcompiles hallows
      apply Plan.ensures_bind
      refine ih.imp ?_
      rintro entries rfl
      rw [List.map_cons,
        ← entryOf_congr (hresult.trans (map_value_held sv.backend s analyzed p).symm)]
      rfl

/-- The plan comes to what the session lists. -/
theorem Ready.yields_report (h : Ready sv streams id e s)
    (hcompiles : ∀ u, ∃ a, sv.backend.compile u = .compiled a) (analyzed : Bool)
    (project? : Option ProjectId) :
    (reportPlan sv.backend s analyzed project?).Yields sv.backend streams
      (· = s.diagnosed sv.backend analyzed project?) := by
  cases project? with
  | some p =>
      apply Plan.ensures_bind
      refine (Plan.ensures_diagnostics h.free h.named analyzed (h.covered p)).imp ?_
      intro result hallows
      have hresult := h.map_value_eq_listing hcompiles hallows
      simp only [Session.diagnosed, ← hresult]
      cases result <;> rfl
  | none =>
      apply Plan.ensures_bind
      refine (h.yields_entries hcompiles analyzed s.graph.topologicalOrder).imp ?_
      rintro entries rfl
      rfl

theorem Ready.yields_impact (h : Ready sv streams id e s)
    (hcompiles : ∀ u, ∃ a, sv.backend.compile u = .compiled a) (analyzed : Bool) {p : ProjectId}
    (hp : p ∈ s.graph.ids) :
    (impactPlan sv.backend s.context s.overrides s.analyzers analyzed p).Yields sv.backend streams
      (· = s.impact sv.backend analyzed p) := by
  have hmeets := h.meets_impact p s.overrides analyzed
  rw [show Plan.Crashes sv.backend s.context s.overrides p = False from
    eq_false fun hcrashes => hcrashes.exists_fault hcompiles] at hmeets
  exact hmeets.imp fun i hi => hi.eq_impact h.toHosts hcompiles hp

/-- Work that is found out for a session comes to the answer of the demand. -/
def Work.Meets (work : Work π) (b : Backend π) (streams : Set (List UInt8))
    (answer : Except Error Answer) : Prop :=
  ∃ expected, List.Forall₂ (fun a plan => plan.Yields b streams (· = a)) expected work.plans ∧
    work.conclude expected = answer

theorem Ready.batchWork_meets {t : Session} (h : Ready sv streams id e t)
    (hcompiles : ∀ u, ∃ a, sv.backend.compile u = .compiled a) (analyzed : Bool)
    (results : List EditResult) (answer : EditOutcome → Except Error EditOutcome) :
    (batchWork sv.backend analyzed (results, t) answer).Meets sv.backend streams
      ((answer ⟨results, (affected t.graph (results.filterMap EditResult.project)).map
        (t.impact sv.backend analyzed)⟩).map .edited) := by
  refine ⟨_, ?_, rfl⟩
  simp only [batchWork]
  rw [List.forall₂_map_right_iff, List.forall₂_map_left_iff, List.forall₂_same]
  exact fun p hp => h.yields_impact hcompiles analyzed (mem_affected.mp hp).left

/-- What a demand leaves at once is what it leaves in the end, and its work comes to its
answer. -/
theorem Ready.work?_meets (h : Ready sv streams id e s)
    (hcompiles : ∀ u, ∃ a, sv.backend.compile u = .compiled a) {d : Demand} {t : Session}
    {work : Work π}
    (hwork : d.work? sv.backend e.config.edits.includeAnalyzers e.clock s = some (t, work)) :
    let o := d.effect sv e.config.edits.includeAnalyzers s e.store
    ∃ answer u, o = ⟨.ended answer, some u, e.store⟩ ∧ u.Like t ∧
      work.Meets sv.backend streams answer ∧ t.id = id ∧ t.Formed := by
  have hused := s.like_use e.clock
  have hstaged (edits : List DocumentEdit) :
      let staged := e.stagedIn s edits
      Ready sv streams id (e.setSession staged.2) staged.2 ∧
        (s.edited sv.backend e.config.edits.includeAnalyzers edits).2.Like staged.2 ∧
        ⟨staged.1, (affected staged.2.graph (staged.1.filterMap EditResult.project)).map
          (staged.2.impact sv.backend e.config.edits.includeAnalyzers)⟩ =
            (s.edited sv.backend e.config.edits.includeAnalyzers edits).1 := by
    rcases edited_like hused sv.backend e.config.edits.includeAnalyzers edits with ⟨hanswer, hlike⟩
    have hkept := h.staged_stagedIn edits
    have hformed := (staged_stageAll edits (s := { s with lastAccess := e.clock }) rfl
      h.use.formed).right
    exact ⟨h.setSession hformed hkept.id hkept.analyzers (hkept.context ▸ h.covered), hlike,
      hanswer⟩
  cases d with
  | diagnostics project? analyze? =>
      cases hwork
      have hreport := h.use.yields_report hcompiles
        (analyze?.getD e.config.edits.includeAnalyzers) project?
      rw [hused.diagnosed] at hreport
      exact ⟨_, s, rfl, hused, ⟨[_], .cons hreport .nil, rfl⟩, h.keyed, h.use.formed⟩
  | applyEdit edit =>
      cases hwork
      rcases hstaged [edit] with ⟨hready, hlike, hanswer⟩
      refine ⟨_, _, rfl, hlike, ?_, hready.keyed, hready.formed⟩
      have hmeets := hready.batchWork_meets hcompiles e.config.edits.includeAnalyzers
        (e.stagedIn s [edit]).1 EditOutcome.alone
      rw [hanswer] at hmeets
      exact hmeets
  | applyEdits edits =>
      simp only [Demand.work?] at hwork
      split at hwork
      · cases hwork
      · rename_i hnonempty
        cases hwork
        rcases hstaged edits with ⟨hready, hlike, hanswer⟩
        refine ⟨.ok (.edited (s.edited sv.backend e.config.edits.includeAnalyzers edits).1), _, ?_,
          hlike, ?_, hready.keyed, hready.formed⟩
        · simp only [Demand.effect, Demand.outcome, if_neg hnonempty]
        · have hmeets := hready.batchWork_meets hcompiles e.config.edits.includeAnalyzers
            (e.stagedIn s edits).1 .ok
          rw [hanswer] at hmeets
          exact hmeets
  | _ => cases hwork

/-!
# Lists side by side
-/

section

universe u v

variable {α : Type u} {β : Type v}

theorem getElem?_of_forall₂ {R : α → β → Prop} {xs : List α} {ys : List β}
    (h : List.Forall₂ R xs ys) {k : Nat} {y : β} (hy : ys[k]? = some y) :
    ∃ x, xs[k]? = some x ∧ R x y := by
  induction h generalizing k with
  | nil => cases hy
  | cons hfirst _ ih =>
      cases k with
      | zero =>
          cases hy
          exact ⟨_, rfl, hfirst⟩
      | succ k => exact ih hy

/-- One of each may change if what holds of the others goes on to hold. -/
theorem forall₂_set {R R' : α → β → Prop} {xs : List α} {ys : List β}
    (h : List.Forall₂ R xs ys) (himp : ∀ x y, R x y → R' x y) (k : Nat) {x' : α} {y' : β}
    (hnew : R' x' y') : List.Forall₂ R' (xs.set k x') (ys.set k y') := by
  induction h generalizing k with
  | nil => exact .nil
  | cons hfirst hrest ih =>
      cases k with
      | zero => exact .cons hnew (hrest.imp himp)
      | succ k => exact .cons (himp _ _ hfirst) (ih k)

theorem set_of_getElem? {xs : List α} {k : Nat} {x : α} (h : xs[k]? = some x) :
    xs.set k x = xs := by
  rcases List.getElem?_eq_some_iff.mp h with ⟨_, rfl⟩
  exact List.set_getElem_self _

end

/-!
# Courses
-/

/-- How far a call is. While it turns to the cache its plans are carried out. -/
inductive Course (π : Type) : Type 1 where
  | leg (l : Leg)
  | working {α : Type} (lanes : List (Pursuit π α)) (conclude : List α → Except Error Answer)

/-- The session and the work of a call that turns to the cache with its next step. -/
def Leg.work? (b : Backend π) (id? : Option SessionId) (e : Engine σ π) :
    Leg → Option (Session × Work π)
  | .serving (.asked d) =>
      (e.session? id?).bind (d.work? b e.config.edits.includeAnalyzers e.clock)
  | _ => none

namespace Course

/-- What the call has come to. -/
def answer? : Course π → Option (Except Halt Answer)
  | leg l => l.answer?
  | working lanes conclude =>
      (lanes.mapM Pursuit.result?).bind fun found => (Leg.serving (.ended (conclude found))).answer?

/-- The next step of a call, but for moves in the cache. -/
def turn (sv : Services σ π) (id? : Option SessionId) (e : Engine σ π) (l : Leg) :
    Course π × Option SessionId × Engine σ π :=
  match l.work? sv.backend id? e with
  | some (s, work) => (working (work.plans.map .following) work.conclude, id?, e.setSession s)
  | none =>
      let (l, id?, e) := l.advance sv id? e
      (leg l, id?, e)

theorem isSome_turn (sv : Services σ π) (id? : Option SessionId) (e : Engine σ π) (l : Leg) :
    (turn sv id? e l).2.1.isSome = (id?.isSome || l.opens sv) := by
  unfold turn
  cases hwork : l.work? sv.backend id? e with
  | none => exact l.isSome_advance sv id? e
  | some found =>
      cases l with
      | opening source root choice w => cases hwork
      | _ => exact (Bool.or_false _).symm

/-- Before a session has been started nothing comes to be served. -/
theorem answer?_isSome_of_turn {sv : Services σ π} {e : Engine σ π} {l : Leg} {stage : Stage}
    (hstage : (turn sv none e l).1 = leg (.serving stage)) :
    (Leg.serving stage).answer?.isSome ∨ l = .serving stage := by
  have hwork : l.work? sv.backend none e = none := by
    cases l with
    | serving stage => cases stage <;> rfl
    | _ => rfl
  simp only [turn, hwork] at hstage
  cases l with
  | starting source root choice =>
      refine .inl ?_
      simp only [Leg.advance] at hstage
      split at hstage <;> cases hstage
      rfl
  | opening source root choice w =>
      refine .inl ?_
      simp only [Leg.advance] at hstage
      split at hstage <;> cases hstage <;> rfl
  | serving stage' => exact .inr (Course.leg.inj hstage)

/-- A move of one of the plans. -/
inductive Moves (b : Backend π) : Course π → Schedule π → Course π → Schedule π → Prop where
  | lane {α : Type} {lanes : List (Pursuit π α)} {k : Nat} {lane lane' : Pursuit π α}
      {conclude : List α → Except Error Answer} {s s' : Schedule π}
      (hlane : lanes[k]? = some lane) (hmove : lane.Moves b s lane' s') :
      Moves b (working lanes conclude) s (working (lanes.set k lane') conclude) s'

/-- The call is as far as a leg, or will be when its plans have been carried out. -/
def Comes (b : Backend π) (streams : Set (List UInt8)) (m : Machine π) (l : Leg) : Course π → Prop
  | leg l' => l.aside = l'.aside
  | working lanes conclude =>
      ∃ expected, List.Forall₂ (fun a lane => lane.Sound b streams (· = a) m) expected lanes ∧
        l.aside = (Leg.serving (.ended (conclude expected))).aside

variable {b : Backend π} {m m' : Machine π} {l l' : Leg} {c c' : Course π}
  {schedule schedule' : Schedule π}

theorem Comes.keeps (h : c.Comes b streams m l) (hkeeps : m.Keeps m') :
    c.Comes b streams m' l := by
  cases c with
  | leg l' => exact h
  | working lanes conclude =>
      rcases h with ⟨expected, hlanes, haside⟩
      exact ⟨expected, hlanes.imp fun _ _ hlane => hlane.keeps hkeeps, haside⟩

theorem Comes.of_aside (h : c.Comes b streams m l) (haside : l'.aside = l.aside) :
    c.Comes b streams m l' := by
  cases c with
  | leg l'' => exact haside.trans h
  | working lanes conclude =>
      rcases h with ⟨expected, hlanes, haside'⟩
      exact ⟨expected, hlanes, haside.trans haside'⟩

/-- A move keeps what the call will come to. -/
theorem Comes.moves (h : c.Comes b streams schedule.machine l)
    (hfree : CollisionFree b.environment streams) (hs : schedule.Good b streams)
    (hmove : c.Moves b schedule c' schedule') :
    schedule.Follows b streams schedule' ∧ c'.Comes b streams schedule'.machine l := by
  cases hmove with
  | @lane _ _ k _ lane' _ _ _ hlane hmove =>
      rcases h with ⟨expected, hlanes, haside⟩
      rcases getElem?_of_forall₂ hlanes hlane with ⟨a, ha, hsound⟩
      rcases hsound.moves hfree hs hmove with ⟨hfollows, hsound'⟩
      refine ⟨hfollows, expected, ?_, haside⟩
      have hset := forall₂_set hlanes (fun _ _ hother => hother.keeps hfollows.keeps) k hsound'
      rwa [set_of_getElem? ha] at hset

theorem answer?_aside (l : Leg) : l.aside.answer? = l.answer? := by
  have hidem (error : Error) : error.aside.aside = error.aside := by cases error <;> rfl
  cases l with
  | serving stage =>
      cases stage with
      | failed halt =>
          cases halt with
          | failed error =>
              exact congrArg (fun e => (some (.error (.failed e)) : Option (Except Halt Answer)))
                (hidem error)
          | _ => rfl
      | _ => rfl
  | _ => rfl

theorem answer?_congr (h : l.aside = l'.aside) : l.answer? = l'.answer? := by
  rw [← answer?_aside l, h, answer?_aside l']

theorem eq_of_forall₂_sound {expected found : List α} {lanes : List (Pursuit π α)}
    (h : List.Forall₂ (fun a lane => lane.Sound b streams (· = a) m) expected lanes)
    (hfound : lanes.mapM Pursuit.result? = some found) : found = expected := by
  induction h generalizing found with
  | nil =>
      cases hfound
      rfl
  | cons hlane _ ih =>
      rw [List.mapM_cons] at hfound
      rcases Option.bind_eq_some_iff.mp hfound with ⟨a, ha, hrest⟩
      rcases Option.bind_eq_some_iff.mp hrest with ⟨as, has, hcons⟩
      cases hcons
      rw [hlane.of_result? ha, ih has]

/-- What a call comes to is what the leg has come to. -/
theorem Comes.answer_eq (h : c.Comes b streams m l) {answer : Except Halt Answer}
    (hanswer : c.answer? = some answer) : l.answer? = some answer := by
  cases c with
  | leg l' => exact (answer?_congr h).trans hanswer
  | working lanes conclude =>
      rcases h with ⟨expected, hlanes, haside⟩
      rcases Option.bind_eq_some_iff.mp hanswer with ⟨found, hfound, hended⟩
      cases eq_of_forall₂_sound hlanes hfound
      exact (answer?_congr haside).trans hended

end Course

/-!
# Steps of calls
-/

theorem Demand.work?_isSome {d : Demand} (hd : d.consults) (b : Backend π) (analyzed : Bool)
    (now : Nat) (s : Session) : (d.work? b analyzed now s).isSome := by
  cases d with
  | applyEdits edits =>
      cases edits with
      | nil => cases hd
      | cons edit edits => rfl
  | diagnostics project? analyze? => rfl
  | applyEdit edit => rfl
  | _ => cases hd

/-- What a step of a call does: it comes to what a leg without a cache comes to, and it
leaves the others alone. -/
structure Turned (sv : Services σ π) (streams : Set (List UInt8)) (id? : Option SessionId)
    (e : Engine σ π) (l : Leg) (next : Course π × Option SessionId × Engine σ π) : Prop where
  comes : next.1.Comes sv.backend streams next.2.2.schedule.machine
    (l.effect sv e.config.edits.includeAnalyzers id? (e.session? id?) e.store).leg
  session : Option.Rel Session.Like
    (l.effect sv e.config.edits.includeAnalyzers id? (e.session? id?) e.store).session
    (next.2.2.session? next.2.1)
  store : next.2.2.store =
    (l.effect sv e.config.edits.includeAnalyzers id? (e.session? id?) e.store).store
  config : next.2.2.config = e.config
  stands : Stands sv streams next.2.1 next.2.2
  keeping : Keeping next.2.1 e next.2.2
  numbers : Numbers id? next.2.1 e next.2.2

theorem Course.turn_turned {id? : Option SessionId} (h : Stands sv streams id? e)
    (hkeyed : ∀ id s, e.sessions.get? id = some s → s.id = id)
    (hfree : CollisionFree sv.backend.environment streams)
    (hcompiles : ∀ u, ∃ a, sv.backend.compile u = .compiled a)
    (hfamiliar : ∀ s, e.session? id? = some s → Familiar sv streams s) (l : Leg)
    (hbrings : ∀ w, l.Brings sv (e.session? id?) w → ∀ id p,
      (Context.ofWorkspace id w).Covered sv.backend.environment streams p) :
    Turned sv streams id? e l (Course.turn sv id? e l) := by
  unfold Course.turn
  cases hwork : l.work? sv.backend id? e with
  | none =>
      have hmeets := l.advance_meets h hfree hcompiles hfamiliar hbrings
      have hkeeping := l.keeping_advance sv id? hkeyed (by
        rintro d rfl hd
        cases hs : e.session? id? with
        | none => rfl
        | some s =>
            have hsome := d.work?_isSome hd sv.backend e.config.edits.includeAnalyzers e.clock s
            simp only [Leg.work?, hs, Option.bind_some] at hwork
            rw [hwork] at hsome
            cases hsome)
      rcases hadvance : l.advance sv id? e with ⟨l', id?', e'⟩
      rw [hadvance] at hmeets hkeeping
      rcases hmeets with ⟨hl', hsession, hstore, hconfig, hstands⟩
      exact ⟨congrArg Leg.aside hl'.symm, hsession, hstore, hconfig, hstands, hkeeping.left,
        hkeeping.right⟩
  | some found =>
      rcases found with ⟨t, work⟩
      cases l with
      | serving stage =>
          cases stage with
          | asked d =>
              rcases Option.bind_eq_some_iff.mp hwork with ⟨s, hs, hd⟩
              cases id? with
              | none => cases hs
              | some id =>
                  have hs : e.sessions.get? id = some s := hs
                  have hready := (h.prepared hfree hfamiliar).ready s hs
                  rcases hready.work?_meets hcompiles hd with
                    ⟨answer, u, heffect, hlike, ⟨expected, hplans, hanswer⟩, hid, hformed⟩
                  have hpresent : e.session? (some id) = some s := hs
                  have hleg : (Leg.serving (.asked d)).effect sv e.config.edits.includeAnalyzers
                      (some id) (e.session? (some id)) e.store =
                        ⟨.serving (.ended answer), some u, e.store⟩ := by
                    rw [hpresent]
                    simp only [Leg.effect, Stage.effect, heffect]
                  have hhosts : Hosts sv streams id (e.setSession t) t :=
                    ⟨h.schedule, get?_setSession hid, hid, hformed⟩
                  have hbeside := (Beside.refl (hkeyed id)).setSession hid
                  refine ⟨?_, ?_, ?_, rfl, .of_hosts hhosts, hbeside.keeping, .inl ⟨rfl, rfl⟩⟩
                  · rw [hleg, ← hanswer]
                    refine ⟨expected, ?_, rfl⟩
                    rw [List.forall₂_map_right_iff]
                    exact hplans
                  · rw [hleg]
                    change Option.Rel Session.Like (some u) ((e.setSession t).sessions.get? id)
                    rw [hhosts.session]
                    exact .some hlike
                  · rw [hleg]
                    rfl
          | _ => cases hwork
      | _ => cases hwork

end Engine
end Ripple
