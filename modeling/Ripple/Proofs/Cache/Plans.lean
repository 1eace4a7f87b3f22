import Ripple.Proofs.Cache.Progress

/-!
# What plans come to

A plan ensures a property of its result if it does so for every answer that
agrees with the uncached builds. As all answers do, carrying the plan out gives
such a result, and it does come to an end.
-/

namespace Ripple
namespace Cache

variable {π α β : Type}

namespace Plan

section

variable (b : Backend π) (streams : Set (List UInt8)) (asks : Context → ProjectId → Prop)
  (panics : Prop)

/-- The plan asks for certain projects only, it may panic or not, and its result
has the property. -/
def Ensures (Q : α → Prop) : Plan π α → Prop
  | .done a => Q a
  | .request ctx id next =>
      asks ctx id ∧ (ctx.Covered b.environment streams id →
        ∀ result, Answers b ctx id result → (next result).Ensures Q)
  | .compile u next =>
      match b.compile u with
      | .compiled a => ∀ stamp, (next (.ok ⟨stamp, a⟩)).Ensures Q
      | .failed cause => (next (.error cause)).Ensures Q
      | .panicked => panics
  | .consult key next =>
      ∀ found, (∀ l, found = some l → Lists b streams key l) → (next found).Ensures Q
  | .file key f ds next =>
      (∀ stamp, Lists b streams key ⟨f, ⟨stamp, ds⟩⟩) ∧
        ∀ stamp, (next ⟨stamp, ds⟩).Ensures Q

end

variable {b : Backend π} {streams : Set (List UInt8)} {asks : Context → ProjectId → Prop}
  {panics : Prop}

theorem Ensures.imp {Q Q' : α → Prop} {plan : Plan π α}
    (h : plan.Ensures b streams asks panics Q) (himp : ∀ a, Q a → Q' a) :
    plan.Ensures b streams asks panics Q' := by
  induction plan with
  | done a => exact himp a h
  | request ctx id next ih => exact ⟨h.left, fun hcov r hr => ih r (h.right hcov r hr)⟩
  | compile u next ih =>
      unfold Ensures at h ⊢
      cases hcompile : b.compile u with
      | compiled a =>
          rw [hcompile] at h
          exact fun stamp => ih _ (h stamp)
      | failed cause =>
          rw [hcompile] at h
          exact ih _ h
      | panicked =>
          rw [hcompile] at h
          exact h
  | consult key next ih => exact fun found hfound => ih found (h found hfound)
  | file key f ds next ih => exact ⟨h.left, fun stamp => ih _ (h.right stamp)⟩

theorem ensures_bind {Q : β → Prop} {plan : Plan π α} {k : α → Plan π β}
    (h : plan.Ensures b streams asks panics fun a => (k a).Ensures b streams asks panics Q) :
    (plan.bind k).Ensures b streams asks panics Q := by
  induction plan with
  | done a => exact h
  | request ctx id next ih => exact ⟨h.left, fun hcov r hr => ih r (h.right hcov r hr)⟩
  | compile u next ih =>
      unfold Ensures at h
      unfold bind Ensures
      cases hcompile : b.compile u with
      | compiled a =>
          rw [hcompile] at h
          exact fun stamp => ih _ (h stamp)
      | failed cause =>
          rw [hcompile] at h
          exact ih _ h
      | panicked =>
          rw [hcompile] at h
          exact h
  | consult key next ih => exact fun found hfound => ih found (h found hfound)
  | file key f ds next ih => exact ⟨h.left, fun stamp => ih _ (h.right stamp)⟩

/-- A plan that may come to nothing goes on with what it has come to. -/
theorem ensures_attempt_bind {Q : Except Error β → Prop} {plan : Attempt π α}
    {k : α → Attempt π β}
    (h : Ensures b streams asks panics (fun
      | .ok a => Ensures b streams asks panics Q (k a).run
      | .error e => Q (.error e)) plan.run) :
    Ensures b streams asks panics Q (plan >>= k).run := by
  apply ensures_bind
  refine h.imp ?_
  intro result hresult
  cases result with
  | ok a => exact hresult
  | error e => exact hresult

/-!
# Artifacts and diagnostics
-/

theorem ensures_resolve {ctx : Context} {id : ProjectId} (hasks : asks ctx id) :
    Ensures b streams asks panics
      (fun result => ctx.Covered b.environment streams id ∧ Answers b ctx id result)
      (resolve (π := π) ctx id).run :=
  ⟨hasks, fun hcov _ hresult => ⟨hcov, hresult⟩⟩

/-- The artifact that is asked for is that of the uncached build. -/
theorem ensures_getOrCreate {ctx : Context} {id : ProjectId} (hasks : asks ctx id) :
    Ensures b streams asks panics
      (fun result => (ctx.uncached b id).Allows (result.map Held.value))
      (getOrCreate (π := π) ctx id).run := by
  apply ensures_attempt_bind
  refine (ensures_resolve hasks).imp ?_
  rintro result ⟨_, hresult⟩
  cases result with
  | ok r => exact hresult.right
  | error e => exact hresult

/-- So are the diagnostics, whether they had been listed before or not. -/
theorem ensures_diagnostics (hfree : CollisionFree b.environment streams) {ctx : Context}
    {id : ProjectId} {s : AnalyzerSet} (hs : Named streams s) (analyzed : Bool)
    (hasks : asks ctx id) :
    Ensures b streams asks panics
      (fun result => (uncachedListing ctx b id s analyzed).Allows (result.map Held.value))
      (diagnostics b ctx id s analyzed).run := by
  apply ensures_attempt_bind
  refine (ensures_resolve hasks).imp ?_
  rintro result ⟨hcov, hresult⟩
  cases result with
  | error e =>
      rcases hresult with ⟨es, hes, he⟩
      exact ⟨es, by simp only [uncachedListing, hes], he⟩
  | ok r =>
      have htaken : TakenOf b streams r.fingerprint ctx id := ⟨hcov, hresult.left⟩
      have hcollect := uncachedListing_of_ok hresult.right s analyzed
      have hcompute : Ensures b streams asks panics
          (fun result => (uncachedListing ctx b id s analyzed).Allows (result.map Held.value))
          (do
            let ds ← diagnostics.liftExcept (collect b r.artifact.value s analyzed)
            Plan.file ⟨⟨ctx.session, id⟩, s.key, analyzed⟩ r.fingerprint ds
              fun held => .done (.ok held) : Attempt π (Held (List Diagnostic))).run := by
        apply ensures_attempt_bind
        cases hds : collect b r.artifact.value s analyzed with
        | error e =>
            rw [hds] at hcollect
            exact hcollect
        | ok ds =>
            rw [hds] at hcollect
            exact ⟨fun stamp => ⟨ctx, id, s, htaken, hs, rfl, hcollect⟩, fun stamp => hcollect⟩
      apply ensures_attempt_bind
      intro found hfound
      cases found with
      | none => exact hcompute
      | some l =>
          simp only [Ensures]
          by_cases hsame : l.fingerprint = r.fingerprint
          · rw [if_pos hsame]
            rcases hfound l rfl with ⟨ctx', id', s', htaken', hs', hkey, hlisted⟩
            rw [hsame] at htaken'
            have hset : s = s' := hs.eq_of_key_eq hfree hs' hkey
            rw [← hset] at hlisted
            have heq := htaken.uncached_eq hfree htaken'
            simp only [uncachedListing, ← heq] at hlisted
            exact hlisted
          · rw [if_neg hsame]
            exact hcompute

/-- The plan asks for covered projects only, panics only if it may, and its result
has the property. -/
abbrev Meets (b : Backend π) (streams : Set (List UInt8)) (panics : Prop) (Q : α → Prop)
    (plan : Plan π α) : Prop :=
  plan.Ensures b streams (fun ctx id => ctx.Covered b.environment streams id) panics Q

/-- The same of a plan that does not panic. -/
abbrev Yields (b : Backend π) (streams : Set (List UInt8)) (Q : α → Prop)
    (plan : Plan π α) : Prop :=
  plan.Meets b streams False Q

end Plan

/-!
# Carrying plans out
-/

namespace Schedule

variable {b : Backend π} {streams : Set (List UInt8)} {panics : Prop} {Q : α → Prop}

/-- A caller comes out of its plan as it is to: it does not wait for ever. -/
def Exit.Meets (panics : Prop) (Q : α → Prop) : Exit α → Prop
  | .returned a => Q a
  | .panicked => panics
  | .blocked => False

theorem Exit.Meets.returned {exit : Exit α} (h : exit.Meets False Q) :
    ∃ a, exit = .returned a ∧ Q a := by
  cases exit with
  | returned a => exact ⟨a, rfl, h⟩
  | panicked => exact h.elim
  | blocked => exact h.elim

/-- A schedule that has gone on without losing a task. -/
structure Follows (b : Backend π) (streams : Set (List UInt8)) (s s' : Schedule π) : Prop where
  good : s'.Good b streams
  keeps : s.machine.Keeps s'.machine

theorem Follows.refl {s : Schedule π} (h : s.Good b streams) : s.Follows b streams s :=
  ⟨h, .refl _⟩

theorem Follows.trans {s s' s'' : Schedule π} (h : s.Follows b streams s')
    (h' : s'.Follows b streams s'') : s.Follows b streams s'' :=
  ⟨h'.good, h.keeps.trans h'.keeps⟩

/-- A request of a caller that has gone as far as it can on its own. -/
structure Posed (b : Backend π) (streams : Set (List UInt8)) (m : Machine π) (r : Request π) :
    Prop where
  sound : r.Sound b streams m
  passive : ¬ r.isActive

theorem request_good (hfree : CollisionFree b.environment streams) {s : Schedule π}
    (h : s.Good b streams) {ctx : Context} {id : ProjectId}
    (hcov : ctx.Covered b.environment streams id) :
    s.Follows b streams (s.request b ctx id).2 ∧
      Posed b streams (s.request b ctx id).2.machine (s.request b ctx id).1 ∧
      (s.request b ctx id).1.context = ctx ∧ (s.request b ctx id).1.project = id := by
  have hr : (Request.of ctx id : Request π).Sound b streams s.machine := ⟨hcov, trivial⟩
  rcases Request.sound_advance hfree h.sound.machine hr with ⟨hm, hr', hext⟩
  exact ⟨⟨h.after hm hext, hext.adds.keeps⟩, ⟨hr', Request.not_active_advance _ _ _⟩,
    Request.context_advance _ _ _⟩

theorem follows_recordCall {s : Schedule π} (h : s.Good b streams) (u : CompileUnit π) :
    s.Follows b streams (s.recordCall u) :=
  ⟨h.withMachine (h.sound.machine.within rfl (.refl _)) rfl rfl, Machine.keeps_of_tasks_eq rfl⟩

/-- The backend answers as the plan expects, or panics as the plan may. -/
theorem answer_good {s : Schedule π} (h : s.Good b streams) {u : CompileUnit π}
    {next : Except String (Held (Artifact π)) → Plan π α}
    {asks : Context → ProjectId → Prop}
    (hnext : (Plan.compile u next).Ensures b streams asks panics Q) :
    match s.answer b u with
    | some (result, s') =>
        s.Follows b streams s' ∧ (next result).Ensures b streams asks panics Q
    | none => panics := by
  unfold answer
  simp only [Plan.Ensures] at hnext
  cases hcompile : b.compile u with
  | compiled a =>
      rw [hcompile] at hnext
      have hwithin := Tables.within_stamp s.tables a
      refine ⟨⟨?_, Machine.keeps_of_tasks_eq rfl⟩, hnext _⟩
      exact h.withMachine (h.sound.machine.within rfl hwithin) rfl hwithin.nextTicket
  | failed cause =>
      rw [hcompile] at hnext
      exact ⟨.refl h, hnext⟩
  | panicked =>
      rw [hcompile] at hnext
      exact hnext

theorem fileListing_good {s : Schedule π} (h : s.Good b streams) {key : ListingKey}
    {f : Fingerprint} {ds : List Diagnostic}
    (hl : ∀ stamp, Lists b streams key ⟨f, ⟨stamp, ds⟩⟩) :
    s.Follows b streams (s.fileListing key f ds).2 ∧
      (s.fileListing key f ds).1.value = ds := by
  have hwithin := Tables.within_stamp s.tables ds
  have hstamped : ({ s.machine with tables := (s.tables.stamp ds).2 } : Machine π).Sound
      b streams := h.sound.machine.within rfl hwithin
  refine ⟨⟨?_, Machine.keeps_of_tasks_eq rfl⟩, rfl⟩
  exact h.withMachine (hstamped.file (hl _)) rfl hwithin.nextTicket

/-- A plan that is carried out comes to its end, with a result as it is to be. -/
theorem drive_meets (hfree : CollisionFree b.environment streams) {plan : Plan π α}
    (hplan : plan.Meets b streams panics Q) {s : Schedule π} (h : s.Good b streams) :
    (drive b plan s).1.Meets panics Q ∧ s.Follows b streams (drive b plan s).2 := by
  induction plan generalizing s with
  | done a => exact ⟨hplan, .refl h⟩
  | request ctx id next ih =>
      rcases hplan with ⟨hcov, hnext⟩
      rcases request_good hfree h hcov with ⟨hfollows, hposed, hctx, hid⟩
      unfold drive
      generalize s.request b ctx id = asked at *
      rcases asked with ⟨r, s₁⟩
      simp only at hfollows hposed hctx hid ⊢
      subst hctx hid
      cases hresult : r.result? s₁.machine with
      | some result =>
          have hanswers := Request.answers_of_result? hfree hfollows.good.sound.machine
            hposed.sound hresult
          rcases ih result (hnext hcov result hanswers) hfollows.good with ⟨hmeets, hs'⟩
          exact ⟨hmeets, hfollows.trans hs'⟩
      | none =>
          rcases settle_good hfree hfollows.good with ⟨hgood, hkeeps, hended⟩
          have hsound := hposed.sound.keeps hkeeps
          rcases Option.isSome_iff_exists.mp
              (result?_isSome_of_ended hsound hposed.passive hended) with
            ⟨result, hresult'⟩
          have hanswers := Request.answers_of_result? hfree hgood.sound.machine hsound hresult'
          rcases ih result (hnext hcov result hanswers) hgood with ⟨hmeets, hs'⟩
          simp only [hresult']
          exact ⟨hmeets, (hfollows.trans ⟨hgood, hkeeps⟩).trans hs'⟩
  | compile u next ih =>
      have hcalled := follows_recordCall h u
      have hanswer := answer_good hcalled.good hplan
      unfold drive
      simp only [hcalled.good.gateOpen, if_true]
      generalize (s.recordCall u).answer b u = answered at hanswer ⊢
      cases answered with
      | none => exact ⟨hanswer, hcalled⟩
      | some pair =>
          rcases pair with ⟨result, s₁⟩
          rcases hanswer with ⟨hfollows, hnext⟩
          rcases ih result hnext hfollows.good with ⟨hmeets, hs'⟩
          exact ⟨hmeets, hcalled.trans (hfollows.trans hs')⟩
  | consult key next ih =>
      exact ih _ (hplan _ fun l hl => h.sound.machine.listings hl) h
  | file key f ds next ih =>
      rcases fileListing_good h hplan.left with ⟨hfollows, hvalue⟩
      have hnext := hplan.right (s.fileListing key f ds).1.stamp
      rw [← hvalue] at hnext
      rcases ih _ hnext hfollows.good with ⟨hmeets, hs'⟩
      exact ⟨hmeets, hfollows.trans hs'⟩

/-- A plan that does not panic returns. -/
theorem drive_good (hfree : CollisionFree b.environment streams) {plan : Plan π α}
    (hplan : plan.Yields b streams Q) {s : Schedule π} (h : s.Good b streams) :
    ∃ a s', drive b plan s = (.returned a, s') ∧ Q a ∧ s.Follows b streams s' := by
  rcases drive_meets hfree hplan h with ⟨hmeets, hfollows⟩
  rcases hmeets.returned with ⟨a, hexit, ha⟩
  exact ⟨a, _, Prod.ext hexit rfl, ha, hfollows⟩

/-!
# Several callers at once
-/

/-- A caller on its way to a result as it is to be. -/
def Underway (b : Backend π) (streams : Set (List UInt8)) (panics : Prop) (Q : α → Prop)
    (m : Machine π) : Caller π α → Prop
  | .waiting r next =>
      Posed b streams m r ∧ r.context.Covered b.environment streams r.project ∧
        ∀ result, Answers b r.context r.project result →
          (next result).Meets b streams panics Q
  | .compiling _ _ => False
  | .panicked => panics
  | .returned a => Q a

theorem Underway.keeps {m m' : Machine π} {c : Caller π α}
    (h : Underway b streams panics Q m c) (hkeeps : m.Keeps m') :
    Underway b streams panics Q m' c := by
  cases c with
  | waiting r next => exact ⟨⟨h.left.sound.keeps hkeeps, h.left.passive⟩, h.right⟩
  | _ => exact h

theorem poll_good (hfree : CollisionFree b.environment streams) {plan : Plan π α}
    (hplan : plan.Meets b streams panics Q) {s : Schedule π} (h : s.Good b streams) :
    Underway b streams panics Q (poll b plan s).2.machine (poll b plan s).1 ∧
      s.Follows b streams (poll b plan s).2 := by
  induction plan generalizing s with
  | done a => exact ⟨hplan, .refl h⟩
  | request ctx id next ih =>
      rcases hplan with ⟨hcov, hnext⟩
      rcases request_good hfree h hcov with ⟨hfollows, hposed, hctx, hid⟩
      unfold poll
      generalize s.request b ctx id = asked at *
      rcases asked with ⟨r, s₁⟩
      simp only at hfollows hposed hctx hid ⊢
      subst hctx hid
      cases hresult : r.result? s₁.machine with
      | some result =>
          have hanswers := Request.answers_of_result? hfree hfollows.good.sound.machine
            hposed.sound hresult
          rcases ih result (hnext hcov result hanswers) hfollows.good with ⟨hunderway, hs'⟩
          exact ⟨hunderway, hfollows.trans hs'⟩
      | none => exact ⟨⟨hposed, hcov, hnext hcov⟩, hfollows⟩
  | compile u next ih =>
      have hcalled := follows_recordCall h u
      have hanswer := answer_good hcalled.good hplan
      unfold poll
      simp only [hcalled.good.gateOpen, if_true]
      generalize (s.recordCall u).answer b u = answered at hanswer ⊢
      cases answered with
      | none => exact ⟨hanswer, hcalled⟩
      | some pair =>
          rcases pair with ⟨result, s₁⟩
          rcases hanswer with ⟨hfollows, hnext⟩
          rcases ih result hnext hfollows.good with ⟨hunderway, hs'⟩
          exact ⟨hunderway, hcalled.trans (hfollows.trans hs')⟩
  | consult key next ih =>
      exact ih _ (hplan _ fun l hl => h.sound.machine.listings hl) h
  | file key f ds next ih =>
      rcases fileListing_good h hplan.left with ⟨hfollows, hvalue⟩
      have hnext := hplan.right (s.fileListing key f ds).1.stamp
      rw [← hvalue] at hnext
      rcases ih _ hnext hfollows.good with ⟨hunderway, hs'⟩
      exact ⟨hunderway, hfollows.trans hs'⟩

theorem resume_good (hfree : CollisionFree b.environment streams) {c : Caller π α}
    {s : Schedule π} (hc : Underway b streams panics Q s.machine c) (h : s.Good b streams) :
    Underway b streams panics Q (c.resume b s).2.machine (c.resume b s).1 ∧
      s.Follows b streams (c.resume b s).2 := by
  cases c with
  | waiting r next =>
      rcases hc with ⟨hposed, hcov, hnext⟩
      unfold Caller.resume
      cases hresult : r.result? s.machine with
      | none =>
          simp only [hresult]
          exact ⟨⟨hposed, hcov, hnext⟩, .refl h⟩
      | some result =>
          simp only [hresult]
          have hanswers := Request.answers_of_result? hfree h.sound.machine hposed.sound hresult
          exact poll_good hfree (hnext result hanswers) h
  | compiling u next => exact hc.elim
  | returned a => exact ⟨hc, .refl h⟩
  | panicked => exact ⟨hc, .refl h⟩

theorem finish_good (hfree : CollisionFree b.environment streams) {c : Caller π α}
    {s : Schedule π} (hc : Underway b streams panics Q s.machine c) (h : s.Good b streams) :
    (c.finish b s).1.Meets panics Q ∧ s.Follows b streams (c.finish b s).2 := by
  cases c with
  | waiting r next =>
      rcases hc with ⟨hposed, hcov, hnext⟩
      rcases settle_good hfree h with ⟨hgood, hkeeps, hended⟩
      have hsound := hposed.sound.keeps hkeeps
      rcases Option.isSome_iff_exists.mp (result?_isSome_of_ended hsound hposed.passive hended) with
        ⟨result, hresult⟩
      have hanswers := Request.answers_of_result? hfree hgood.sound.machine hsound hresult
      rcases drive_meets hfree (hnext result hanswers) hgood with ⟨hmeets, hs'⟩
      simp only [Caller.finish, hresult]
      exact ⟨hmeets, Follows.trans ⟨hgood, hkeeps⟩ hs'⟩
  | compiling u next => exact hc.elim
  | returned a => exact ⟨hc, .refl h⟩
  | panicked => exact ⟨hc, .refl h⟩

/-- What holds of each item for itself, holds of all of them in the end. -/
theorem each_good {ι γ δ : Type} (f : γ → Schedule π → δ × Schedule π)
    (before : ι → γ → Machine π → Prop) (after : ι → δ → Machine π → Prop)
    (hbefore : ∀ {i x m m'}, before i x m → m.Keeps m' → before i x m')
    (hafter : ∀ {i y m m'}, after i y m → m.Keeps m' → after i y m')
    (hf : ∀ {i x s}, before i x s.machine → s.Good b streams →
      after i (f x s).1 (f x s).2.machine ∧ s.Follows b streams (f x s).2)
    {is : List ι} {xs : List γ} {s : Schedule π}
    (hxs : List.Forall₂ (fun i x => before i x s.machine) is xs) (h : s.Good b streams) :
    List.Forall₂ (fun i y => after i y (each f xs s).2.machine) is (each f xs s).1 ∧
      s.Follows b streams (each f xs s).2 := by
  induction xs generalizing is s with
  | nil =>
      cases hxs
      exact ⟨.nil, .refl h⟩
  | cons x xs ih =>
      cases hxs with
      | cons hx hrest =>
          rcases hf hx h with ⟨hy, hfollows⟩
          rcases ih (hrest.imp fun _ _ hb => hbefore hb hfollows.keeps) hfollows.good with
            ⟨hys, hs'⟩
          exact ⟨.cons (hafter hy hs'.keeps) hys, hfollows.trans hs'⟩

section

variable {ι : Type} {panics : ι → Prop} {Q : ι → α → Prop}

theorem takeTurns_good (hfree : CollisionFree b.environment streams) {is : List ι}
    (turns : Nat) {callers : List (Caller π α)} {s : Schedule π}
    (hcallers : List.Forall₂
      (fun i c => Underway b streams (panics i) (Q i) s.machine c) is callers)
    (h : s.Good b streams) :
    List.Forall₂
        (fun i c => Underway b streams (panics i) (Q i) (takeTurns b turns callers s).2.machine c)
        is (takeTurns b turns callers s).1 ∧
      s.Follows b streams (takeTurns b turns callers s).2 := by
  induction turns generalizing callers s with
  | zero => exact ⟨hcallers, .refl h⟩
  | succ n ih =>
      unfold takeTurns
      split
      · exact ⟨hcallers, .refl h⟩
      · rcases settle_good hfree h with ⟨hgood, hkeeps, _⟩
        rcases each_good (Caller.resume b)
            (fun i c m => Underway b streams (panics i) (Q i) m c)
            (fun i c m => Underway b streams (panics i) (Q i) m c)
            Underway.keeps Underway.keeps (resume_good hfree)
            (hcallers.imp fun _ _ hc => hc.keeps hkeeps) hgood with
          ⟨hresumed, hfollows⟩
        rcases ih hresumed hfollows.good with ⟨hcallers', hs'⟩
        exact ⟨hcallers', (Follows.trans ⟨hgood, hkeeps⟩ hfollows).trans hs'⟩

/-- Plans that are carried out side by side all come to their ends. -/
theorem driveAll_meets (hfree : CollisionFree b.environment streams) {is : List ι}
    (turns : Nat) {plans : List (Plan π α)} {s : Schedule π}
    (hplans : List.Forall₂ (fun i plan => plan.Meets b streams (panics i) (Q i)) is plans)
    (h : s.Good b streams) :
    List.Forall₂ (fun i exit => exit.Meets (panics i) (Q i)) is (driveAll b turns plans s).1 ∧
      s.Follows b streams (driveAll b turns plans s).2 := by
  rcases each_good (poll b)
      (fun i plan _ => Plan.Meets b streams (panics i) (Q i) plan)
      (fun i c m => Underway b streams (panics i) (Q i) m c)
      (fun hplan _ => hplan) Underway.keeps
      (fun hplan hgood => poll_good hfree hplan hgood) hplans h with
    ⟨hpolled, hfollows₁⟩
  rcases takeTurns_good hfree turns hpolled hfollows₁.good with ⟨hturned, hfollows₂⟩
  obtain ⟨hfinished, hfollows₃⟩ := each_good (Caller.finish b)
    (fun i c m => Underway b streams (panics i) (Q i) m c)
    (fun i exit _ => Exit.Meets (panics i) (Q i) exit)
    Underway.keeps (fun hexit _ => hexit)
    (fun hc hgood => finish_good hfree hc hgood) hturned hfollows₂.good
  exact ⟨hfinished, hfollows₁.trans (hfollows₂.trans hfollows₃)⟩

end

end Schedule
end Cache
end Ripple
