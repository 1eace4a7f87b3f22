import Ripple.Proofs.Engine.Courses
import Ripple.Proofs.Engine.Representation

/-!
# Sessions side by side

Any number of parties share an engine. Each starts a session and makes calls for it, and
several of its calls may be under way at once. What the calls, the tasks of the cache and
its upkeep do goes on one step at a time in any order.
-/

namespace Ripple

open Cache

variable {σ π : Type}

namespace Engine

/-- What a party does that is not a matter of the cache. -/
inductive Deed where
  | calls (d : Demand)
  /-- The call with a number takes its next step. -/
  | turns (k : Nat)
  /-- The session has been idle for too long and is removed. -/
  | lapses

/-- Someone who starts a session and makes calls for it, the first of which is the start. -/
structure Party (π : Type) : Type 1 where
  source : Source
  root : Path
  choice : AnalyzerChoice
  id? : Option SessionId
  calls : List (Course π)
  /-- What has been done so far. -/
  deeds : List Deed

def Party.new (source : Source) (root : Path) (choice : AnalyzerChoice) : Party π :=
  ⟨source, root, choice, none, [.leg (.starting source root choice)], []⟩

structure Commons (σ π : Type) : Type 1 where
  engine : Engine σ π
  parties : List (Party π)
  /-- Who has written a file. -/
  writers : List Nat

namespace Commons

def start (config : Config) (store : σ) : Commons σ π :=
  ⟨.new config store true, [], []⟩

/-- The call of a party that is at a leg has taken its next step. -/
def turned (sv : Services σ π) (w : Commons σ π) (i : Nat) (p : Party π) (k : Nat) (l : Leg) :
    Commons σ π :=
  let next := Course.turn sv p.id? w.engine l
  { engine := next.2.2
    parties := w.parties.set i
      { p with id? := next.2.1, calls := p.calls.set k next.1, deeds := p.deeds ++ [.turns k] }
    writers := if l.wrote sv.store w.engine.store then i :: w.writers else w.writers }

def withSchedule (w : Commons σ π) (schedule : Schedule π) : Commons σ π :=
  { w with engine := { w.engine with schedule := schedule } }

/-- What goes on as long as there is something to do. If it is the step of a call then the
party is told, and the leg. -/
inductive Work (sv : Services σ π) (w : Commons σ π) :
    Option (Nat × Leg) → Commons σ π → Prop where
  | turn {i k : Nat} {p : Party π} {l : Leg} (hp : w.parties[i]? = some p)
      (hl : p.calls[k]? = some (.leg l)) (hopen : l.answer? = none) :
      Work sv w (some (i, l)) (w.turned sv i p k l)
  | move {i k : Nat} {p : Party π} {c c' : Course π} {schedule : Schedule π}
      (hp : w.parties[i]? = some p) (hc : p.calls[k]? = some c)
      (hmove : c.Moves sv.backend w.engine.schedule c' schedule) :
      Work sv w none
        { w.withSchedule schedule with
          parties := w.parties.set i { p with calls := p.calls.set k c' } }
  | job {job : Job} {schedule : Schedule π}
      (hjob : w.engine.schedule.stepJob sv.backend job = some schedule) :
      Work sv w none (w.withSchedule schedule)

/-- Anything that can happen next. -/
inductive Step (sv : Services σ π) (w : Commons σ π) :
    Option (Nat × Leg) → Commons σ π → Prop where
  | work {turn? : Option (Nat × Leg)} {w' : Commons σ π} (hwork : w.Work sv turn? w') :
      Step sv w turn? w'
  | joins (source : Source) (root : Path) (choice : AnalyzerChoice) :
      Step sv w none { w with parties := w.parties ++ [.new source root choice] }
  | calls {i : Nat} {p : Party π} (hp : w.parties[i]? = some p) (hstarted : p.id?.isSome)
      (d : Demand) :
      Step sv w none
        { w with
          parties := w.parties.set i
            { p with
              calls := p.calls ++ [.leg (.serving (.asked d))]
              deeds := p.deeds ++ [.calls d] } }
  | lapses {i : Nat} {p : Party π} {s : Session} (hp : w.parties[i]? = some p)
      (hs : w.engine.session? p.id? = some s) :
      Step sv w none
        { w with
          engine := w.engine.remove s
          parties := w.parties.set i { p with deeds := p.deeds ++ [.lapses] } }
  /-- A job that cannot make a step leaves the queue. -/
  | leave {job : Job} {rest : List Job} (hqueue : w.engine.schedule.queue = job :: rest)
      (hjob : w.engine.schedule.stepJob sv.backend job = none) :
      Step sv w none (w.withSchedule { w.engine.schedule with queue := rest })
  | upkeep (u : Upkeep) :
      Step sv w none (w.withSchedule (w.engine.schedule.updateTables u.apply))
  | tick (elapsed : Nat) : Step sv w none { w with engine := w.engine.tick elapsed }

/-- Nothing is left to do. -/
def Stuck (sv : Services σ π) (w : Commons σ π) : Prop :=
  ∀ turn? w', ¬ w.Work sv turn? w'

end Commons

/-!
# Ids are given once
-/

def numbered (n : Nat) : SessionId := ⟨"s" ++ toString n⟩

theorem numbered_injective : Function.Injective numbered := by
  intro n n' h
  have htext : "s" ++ toString n = "s" ++ toString n' := SessionId.mk.inj h
  have hlist := congrArg String.toList htext
  rw [String.toList_append, String.toList_append] at hlist
  have hdigits : Nat.toDigits 10 n = Nat.toDigits 10 n' := by
    rw [← Nat.toList_repr, ← Nat.toList_repr]
    exact List.append_cancel_left hlist
  rw [← Nat.ofDigitChars_ten_toDigits (n := n), hdigits, Nat.ofDigitChars_ten_toDigits]

theorem nextId_eq (e : Engine σ π) : e.nextId = numbered (e.started + 1) := rfl

/-!
# The invariant
-/

theorem Turned.tidy {sv : Services σ π} {streams : Set (List UInt8)} {id? : Option SessionId}
    {e : Engine σ π} {l : Leg} {next : Course π × Option SessionId × Engine σ π} (h : Turned sv streams id? e l next)
    (htidy : e.Holds fun _ => Session.Formed) : next.2.2.Holds fun _ => Session.Formed := by
  intro id s hs
  by_cases hid : next.2.1 = some id
  · exact h.stands.session id s hid hs
  · exact htidy id s (h.keeping.others id hid ▸ hs)

namespace Commons

variable {sv : Services σ π} {streams : Set (List UInt8)} {w w' : Commons σ π} {i : Nat}
  {p p' : Party π} {turn? : Option (Nat × Leg)}

/-- What is hashed for any session is among streams. -/
def Covers (sv : Services σ π) (streams : Set (List UInt8)) (w : Commons σ π) : Prop :=
  ∀ id s, w.engine.sessions.get? id = some s → Familiar sv streams s

structure Sound (sv : Services σ π) (streams : Set (List UInt8)) (w : Commons σ π) : Prop where
  schedule : w.engine.schedule.Good sv.backend streams
  tidy : w.engine.Holds fun _ => Session.Formed
  calls : ∀ (i : Nat) p, w.parties[i]? = some p → ∀ c ∈ p.calls,
    ∃ l, c.Comes sv.backend streams w.engine.schedule.machine l
  /-- Without a session nothing is left to be served. -/
  begun : ∀ (i : Nat) p, w.parties[i]? = some p → p.id? = none →
    ∀ stage, .leg (.serving stage) ∈ p.calls → (Leg.serving stage).answer?.isSome
  numbered : ∀ (i : Nat) p id, w.parties[i]? = some p → p.id? = some id →
    ∃ n ≤ w.engine.started, id = numbered n
  apart : ∀ (i j : Nat) p q id, w.parties[i]? = some p → w.parties[j]? = some q →
    p.id? = some id → q.id? = some id → i = j

theorem sound_start (config : Config) (store : σ) :
    (start config store : Commons σ π).Sound sv streams where
  schedule := Schedule.good_new config.cache
  tidy id s hs := by cases hs
  calls i p hp := by cases hp
  begun i p hp := by cases hp
  numbered i p id hp := by cases hp
  apart i j p q id hp := by cases hp

/-- Who may be found after one has changed. -/
theorem getElem?_set_cases {j : Nat} {q : Party π} (h : (w.parties.set i p')[j]? = some q) :
    i = j ∧ q = p' ∨ i ≠ j ∧ w.parties[j]? = some q := by
  by_cases hj : i = j
  · subst hj
    rw [List.getElem?_set_self'] at h
    rcases hfound : w.parties[i]? with _ | found <;> rw [hfound] at h <;> cases h
    exact .inl ⟨rfl, rfl⟩
  · rw [List.getElem?_set_ne hj] at h
    exact .inr ⟨hj, h⟩

/-- The id of a new session is nobody's yet. -/
theorem Sound.ne_nextId (h : w.Sound sv streams) {j : Nat} {q : Party π} {id : SessionId}
    (hq : w.parties[j]? = some q) (hid : q.id? = some id) : id ≠ w.engine.nextId := by
  rcases h.numbered j q id hq hid with ⟨n, hn, rfl⟩
  intro heq
  have := numbered_injective (heq.trans (nextId_eq w.engine))
  omega

/-- One of the parties has done something. -/
theorem Sound.replace (h : w.Sound sv streams) (hp : w.parties[i]? = some p)
    (e' : Engine σ π) (p' : Party π) (hgood : e'.schedule.Good sv.backend streams)
    (hkeeps : w.engine.schedule.machine.Keeps e'.schedule.machine)
    (htidy : e'.Holds fun _ => Session.Formed)
    (hcalls : ∀ c ∈ p'.calls, ∃ l, c.Comes sv.backend streams e'.schedule.machine l)
    (hbegun : p'.id? = none → ∀ stage, .leg (.serving stage) ∈ p'.calls →
      (Leg.serving stage).answer?.isSome)
    (hnumbers : Numbers p.id? p'.id? w.engine e') (writers : List Nat) :
    (⟨e', w.parties.set i p', writers⟩ : Commons σ π).Sound sv streams where
  schedule := hgood
  tidy := htidy
  calls j q hq := by
    rcases getElem?_set_cases hq with ⟨_, rfl⟩ | ⟨_, hq⟩
    · exact hcalls
    · intro c hc
      rcases h.calls j q hq c hc with ⟨l, hl⟩
      exact ⟨l, hl.keeps hkeeps⟩
  begun j q hq := by
    rcases getElem?_set_cases hq with ⟨_, rfl⟩ | ⟨_, hq⟩
    · exact hbegun
    · exact h.begun j q hq
  numbered j q id hq hid := by
    rcases getElem?_set_cases hq with ⟨_, rfl⟩ | ⟨_, hq⟩
    · rcases hnumbers with ⟨hsame, hstarted⟩ | ⟨hnew, hstarted⟩
      · rcases h.numbered i p id hp (hsame ▸ hid) with ⟨n, hn, rfl⟩
        exact ⟨n, hstarted ▸ hn, rfl⟩
      · cases hnew.symm.trans hid
        exact ⟨_, hstarted ▸ le_rfl, rfl⟩
    · rcases h.numbered j q id hq hid with ⟨n, hn, rfl⟩
      have hle : w.engine.started ≤ e'.started := by
        rcases hnumbers with ⟨_, hstarted⟩ | ⟨_, hstarted⟩ <;> omega
      exact ⟨n, hn.trans hle, rfl⟩
  apart j k q r id hq hr hqid hrid := by
    -- Whoever has the new id is the one who has done something.
    have hother {k : Nat} {r : Party π} (hk : i ≠ k) (hr : w.parties[k]? = some r)
        (hrid : r.id? = some id) (hid : p'.id? = some id) : False := by
      rcases hnumbers with ⟨hsame, _⟩ | ⟨hnew, _⟩
      · exact hk (h.apart i k p r id hp hr (hsame ▸ hid) hrid)
      · exact h.ne_nextId hr hrid (Option.some.inj (hid.symm.trans hnew))
    rcases getElem?_set_cases hq with ⟨rfl, rfl⟩ | ⟨hj, hq'⟩ <;>
      rcases getElem?_set_cases hr with ⟨rfl, rfl⟩ | ⟨hk, hr'⟩
    · rfl
    · exact (hother hk hr' hrid hqid).elim
    · exact (hother hj hq' hqid hrid).elim
    · exact h.apart j k q r id hq' hr' hqid hrid

/-- Someone has come who has no session yet. -/
theorem Sound.joined (h : w.Sound sv streams) (source : Source) (root : Path)
    (choice : AnalyzerChoice) :
    ({ w with parties := w.parties ++ [.new source root choice] } : Commons σ π).Sound sv
      streams := by
  have hcases {j : Nat} {q : Party π}
      (hq : (w.parties ++ [.new source root choice])[j]? = some q) :
      w.parties[j]? = some q ∨ q = .new source root choice := by
    rw [List.getElem?_append] at hq
    split at hq
    · exact .inl hq
    · exact .inr (List.mem_singleton.mp (List.mem_of_getElem? hq))
  refine ⟨h.schedule, h.tidy, fun j q hq => ?_, fun j q hq => ?_, fun j q id hq hid => ?_, ?_⟩
  · rcases hcases hq with hq | rfl
    · exact h.calls j q hq
    · intro c hc
      cases List.mem_singleton.mp hc
      exact ⟨_, rfl⟩
  · rcases hcases hq with hq | rfl
    · exact h.begun j q hq
    · intro _ stage hstage
      cases List.mem_singleton.mp hstage
  · rcases hcases hq with hq | rfl
    · exact h.numbered j q id hq hid
    · cases hid
  · intro j k q r id hq hr hqid hrid
    rcases hcases hq with hq' | rfl
    · rcases hcases hr with hr' | rfl
      · exact h.apart j k q r id hq' hr' hqid hrid
      · cases hrid
    · cases hqid

/-- Something has happened in the cache. -/
theorem Sound.withSchedule (h : w.Sound sv streams) {schedule : Schedule π}
    (hfollows : w.engine.schedule.Follows sv.backend streams schedule) :
    (w.withSchedule schedule).Sound sv streams where
  schedule := hfollows.good
  tidy := h.tidy
  calls j q hq c hc := by
    rcases h.calls j q hq c hc with ⟨l, hl⟩
    exact ⟨l, hl.keeps hfollows.keeps⟩
  begun := h.begun
  numbered := h.numbered
  apart := h.apart

/-- What a workspace is brought by has it in the session afterwards, and what is hashed for
it is then among streams. -/
theorem Sound.covered_of_brings (h : w.Sound sv streams) {k : Nat} {l : Leg}
    (hcovers : (w.turned sv i p k l).Covers sv streams) {workspace : Workspace}
    (hbrings : l.Brings sv (w.engine.session? p.id?) workspace) (id : SessionId) (q : ProjectId) :
    (Context.ofWorkspace id workspace).Covered sv.backend.environment streams q := by
  have hwork : l.work? sv.backend p.id? w.engine = none := by
    cases l with
    | serving stage =>
        cases stage with
        | asked d => exact hbrings.elim
        | _ => rfl
    | _ => rfl
  rcases Leg.exists_brought (fun id s _ hs => (h.tidy id s hs).left) hbrings with
    ⟨id', s, hs, hcontext⟩
  have hturned : (w.turned sv i p k l).engine = (l.advance sv p.id? w.engine).2.2 := by
    simp only [turned, Course.turn, hwork]
  have hcovered := (hcovers id' s (hturned ▸ hs)).covered q
  rw [hcontext] at hcovered
  exact hcovered.withSession id

/-- What the step of a call does. -/
theorem Sound.turned_turned (h : w.Sound sv streams)
    (hfree : CollisionFree sv.backend.environment streams)
    (hcompiles : ∀ u, ∃ a, sv.backend.compile u = .compiled a) (hcovers : w.Covers sv streams)
    {k : Nat} {l : Leg} (hcovers' : (w.turned sv i p k l).Covers sv streams) :
    Turned sv streams p.id? w.engine l (Course.turn sv p.id? w.engine l) := by
  refine Course.turn_turned ⟨h.schedule, fun id s _ hs => h.tidy id s hs⟩
    (fun id s hs => (h.tidy id s hs).left) hfree hcompiles ?_ l
    fun workspace hbrings => h.covered_of_brings hcovers' hbrings
  intro s hs
  rcases Option.bind_eq_some_iff.mp hs with ⟨id, _, hs⟩
  exact hcovers id s hs

/-- A new session has been taken out again. -/
theorem Sound.beside_remove (h : w.Sound sv streams) {s : Session}
    (hs : w.engine.session? p.id? = some s) :
    Beside s.id w.engine (w.engine.remove s) ∧ w.engine.sessions.get? s.id = some s ∧
      p.id? = some s.id := by
  rcases Option.bind_eq_some_iff.mp hs with ⟨id, hid, hs⟩
  cases (h.tidy id s hs).left
  exact ⟨(Beside.refl fun t ht => (h.tidy _ t ht).left).remove rfl, hs, hid⟩

/-- A step that starts no session leaves nothing to be served. -/
theorem Sound.begun_turn (h : w.Sound sv streams) (hp : w.parties[i]? = some p) {k : Nat} {l : Leg}
    (hl : p.calls[k]? = some (.leg l)) (hnone : (Course.turn sv p.id? w.engine l).2.1 = none)
    {stage : Stage}
    (hstage : .leg (.serving stage) ∈ p.calls.set k (Course.turn sv p.id? w.engine l).1) :
    (Leg.serving stage).answer?.isSome := by
  have hid : p.id? = none := by
    have hsome := Course.isSome_turn sv p.id? w.engine l
    rw [hnone] at hsome
    exact Option.isNone_iff_eq_none.mp (by simpa using (Bool.or_eq_false_iff.mp hsome.symm).left)
  rcases List.mem_or_eq_of_mem_set hstage with hstage | hstage
  · exact h.begun i p hp hid stage hstage
  · rw [hid] at hstage
    rcases Course.answer?_isSome_of_turn hstage.symm with hanswer | rfl
    · exact hanswer
    · exact h.begun i p hp hid stage (List.mem_of_getElem? hl)

theorem Sound.step (h : w.Sound sv streams) (hfree : CollisionFree sv.backend.environment streams)
    (hcompiles : ∀ u, ∃ a, sv.backend.compile u = .compiled a) (hcovers : w.Covers sv streams)
    (hcovers' : w'.Covers sv streams) (hstep : w.Step sv turn? w') : w'.Sound sv streams := by
  cases hstep with
  | work hwork =>
      cases hwork with
      | @turn i k p l hp hl hopen =>
          have hturned := h.turned_turned hfree hcompiles hcovers hcovers'
          have hkeeps := Machine.keeps_of_tasks_eq hturned.keeping.tasks
          refine h.replace hp _ _ hturned.stands.schedule hkeeps (hturned.tidy h.tidy) ?_
            (fun hnone _ hstage => h.begun_turn hp hl hnone hstage) hturned.numbers _
          intro c hc
          rcases List.mem_or_eq_of_mem_set hc with hc | rfl
          · rcases h.calls i p hp c hc with ⟨l', hl'⟩
            exact ⟨l', hl'.keeps hkeeps⟩
          · exact ⟨_, hturned.comes⟩
      | @move i k p c c' schedule hp hc hmove =>
          rcases h.calls i p hp c (List.mem_of_getElem? hc) with ⟨l, hl⟩
          rcases hl.moves hfree h.schedule hmove with ⟨hfollows, hl'⟩
          refine h.replace hp { w.engine with schedule := schedule }
            { p with calls := p.calls.set k c' } hfollows.good hfollows.keeps h.tidy ?_ ?_
            (.inl ⟨rfl, rfl⟩) _
          · intro other hother
            rcases List.mem_or_eq_of_mem_set hother with hother | rfl
            · rcases h.calls i p hp other hother with ⟨l', hl'⟩
              exact ⟨l', hl'.keeps hfollows.keeps⟩
            · exact ⟨l, hl'⟩
          · intro hnone stage hstage
            rcases List.mem_or_eq_of_mem_set hstage with hstage | rfl
            · exact h.begun i p hp hnone stage hstage
            · cases hmove
      | job hjob =>
          exact h.withSchedule ⟨h.schedule.stepJob hfree hjob,
            (Schedule.steps_of_stepJob hjob).keeps h.schedule.formed⟩
  | joins source root choice => exact h.joined source root choice
  | @calls i p hp hstarted d =>
      refine h.replace hp w.engine
        { p with
          calls := p.calls ++ [.leg (.serving (.asked d))]
          deeds := p.deeds ++ [.calls d] }
        h.schedule (.refl _) h.tidy ?_ ?_ (.inl ⟨rfl, rfl⟩) _
      · intro c hc
        rcases List.mem_append.mp hc with hc | hc
        · exact h.calls i p hp c hc
        · cases List.mem_singleton.mp hc
          exact ⟨_, rfl⟩
      · intro hnone
        exact absurd hstarted (Option.not_isSome_iff_eq_none.mpr hnone)
  | @lapses i p s hp hs =>
      rcases h.beside_remove hs with ⟨hbeside, hpresent, hid⟩
      have hhosts : Hosts sv streams s.id w.engine s :=
        ⟨h.schedule, hpresent, rfl, (h.tidy _ s hpresent).right⟩
      have hkeeps := Machine.keeps_of_tasks_eq hbeside.tasks
      refine h.replace hp (w.engine.remove s) { p with deeds := p.deeds ++ [.lapses] }
        hhosts.removed.left hkeeps (h.tidy.remove s) ?_ (h.begun i p hp)
        (.inl ⟨rfl, hbeside.started⟩) _
      intro c hc
      rcases h.calls i p hp c hc with ⟨l, hl⟩
      exact ⟨l, hl.keeps hkeeps⟩
  | leave hqueue hjob =>
      exact h.withSchedule ⟨h.schedule.leave hqueue hjob, Machine.keeps_of_tasks_eq rfl⟩
  | upkeep u => exact h.withSchedule (Schedule.Follows.updateTables h.schedule (u.within _))
  | tick elapsed =>
      exact h.withSchedule (Schedule.Follows.updateTables h.schedule (Tables.within_clock _ _))

/-!
# Nobody is left waiting
-/

/-- Where nothing is left to do, all tasks have come to an end. -/
theorem Sound.ended_of_stuck (h : w.Sound sv streams)
    (hfree : CollisionFree sv.backend.environment streams) (hstuck : w.Stuck sv) {ticket : Nat}
    {t : Cache.Task π} (ht : w.engine.schedule.machine.tasks.get? ticket = some t) :
    ∃ o, t.stage = .ended o := by
  refine Schedule.ended_of_waits hfree h.schedule.sound.machine (fun k t hk => ?_) ht
  have hwaits := Schedule.waits_of_not_step (b := sv.backend) hk fun hstep => by
    rcases Option.isSome_iff_exists.mp hstep with ⟨s, hs⟩
    exact hstuck _ _ (.job hs)
  rwa [h.schedule.gateOpen] at hwaits

end Commons
end Engine
end Ripple
