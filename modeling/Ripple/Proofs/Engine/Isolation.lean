import Ripple.Proofs.Engine.Effort
import Ripple.Proofs.Engine.Preview

/-!
# Nobody notices the others

A party that shares an engine gets the answers that it would get on an engine of its own,
as long as it does not look at the files once somebody else has written one.
-/

namespace Ripple

open Cache

variable {σ π : Type}

namespace Engine

/-!
# An engine of one's own
-/

/-- A party on an engine of its own. What a call is to find out in the cache is found out
at once. -/
structure Alone (σ π : Type) where
  engine : Engine σ π
  id? : Option SessionId
  legs : List Leg

namespace Alone

def start (config : Config) (store : σ) (source : Source) (root : Path)
    (choice : AnalyzerChoice) : Alone σ π :=
  ⟨.new config store true, none, [.starting source root choice]⟩

def act (sv : Services σ π) (a : Alone σ π) : Deed → Alone σ π
  | .calls d => { a with legs := a.legs ++ [.serving (.asked d)] }
  | .turns k =>
      match a.legs[k]? with
      | none => a
      | some l =>
          let next := l.advance sv a.id? a.engine
          ⟨next.2.2, next.2.1, a.legs.set k next.1⟩
  | .lapses =>
      match a.engine.session? a.id? with
      | none => a
      | some s => { a with engine := a.engine.remove s }

/-- What a call has come to. -/
def answer? (a : Alone σ π) (k : Nat) : Option (Except Halt Answer) :=
  a.legs[k]?.bind Leg.answer?

end Alone

namespace Party

/-- What a call has come to. -/
def answer? (p : Party π) (k : Nat) : Option (Except Halt Answer) :=
  p.calls[k]?.bind Course.answer?

/-- All that the party has done, without anybody else. -/
def alone (sv : Services σ π) (config : Config) (store : σ) (p : Party π) : Alone σ π :=
  p.deeds.foldl (Alone.act sv) (.start config store p.source p.root p.choice)

theorem alone_also (sv : Services σ π) (config : Config) (store : σ) (p : Party π)
    (id? : Option SessionId) (calls : List (Course π)) (d : Deed) :
    ({ p with id? := id?, calls := calls, deeds := p.deeds ++ [d] } : Party π).alone sv config
      store = (p.alone sv config store).act sv d := by
  unfold alone
  exact List.foldl_concat (Alone.act sv) _ d p.deeds

end Party

/-!
# As far as alone
-/

/-- A party that shares an engine is as far as one on an engine of its own. If nobody else
has written a file then the stores are alike, too. -/
structure Tracks (sv : Services σ π) (streams : Set (List UInt8)) (files : Set Path)
    (alike : σ → σ → Prop) (unshared : Prop) (e : Engine σ π) (p : Party π) (a : Alone σ π) :
    Prop where
  calls : List.Forall₂
    (fun l c => c.Comes sv.backend streams e.schedule.machine l) a.legs p.calls
  started : a.id?.isSome = p.id?.isSome
  session : Option.Rel Session.Like (e.session? p.id?) (a.engine.session? a.id?)
  store : sv.store.Paired files alike unshared e.store a.engine.store
  config : a.engine.config = e.config
  stands : Stands sv streams a.id? a.engine

section

variable {sv : Services σ π} {streams : Set (List UInt8)} {files : Set Path}
  {alike : σ → σ → Prop} {unshared unshared' : Prop} {e e' : Engine σ π} {p : Party π}
  {a : Alone σ π}

/-- Sessions that are like two like ones are like each other. -/
theorem like_of_like {s? s?' t? t?' : Option Session} (hs : Option.Rel Session.Like s? s?')
    (ht : Option.Rel Session.Like s? t?) (ht' : Option.Rel Session.Like s?' t?') :
    Option.Rel Session.Like t? t?' := by
  cases hs with
  | none =>
      cases ht
      cases ht'
      exact .none
  | some hs =>
      cases ht with
      | some ht =>
          cases ht' with
          | some ht' => exact .some ((ht.symm.trans hs).trans ht')

/-- Who has just come is as far as alone. -/
theorem tracks_new {config : Config} {store : σ} (hconfig : e.config = config)
    (hstore : sv.store.Paired files alike unshared e.store store) (source : Source)
    (root : Path) (choice : AnalyzerChoice) :
    Tracks sv streams files alike unshared e (.new source root choice)
      ((Party.new source root choice : Party π).alone sv config store) where
  calls := .cons rfl .nil
  started := rfl
  session := .none
  store := hstore
  config := hconfig.symm
  stands := ⟨Schedule.good_new config.cache, nofun⟩

/-- Something has happened that is not about the session of the party. -/
theorem Tracks.beside (h : Tracks sv streams files alike unshared e p a)
    (hkeeps : e.schedule.machine.Keeps e'.schedule.machine)
    (hsession : e'.session? p.id? = e.session? p.id?)
    (hstore : sv.store.Paired files alike unshared' e'.store a.engine.store)
    (hconfig : e'.config = e.config) : Tracks sv streams files alike unshared' e' p a where
  calls := h.calls.imp fun _ _ hcall => hcall.keeps hkeeps
  started := h.started
  session := hsession ▸ h.session
  store := hstore
  config := h.config.trans hconfig.symm
  stands := h.stands

theorem Tracks.calls_also (h : Tracks sv streams files alike unshared e p a) (d : Demand) :
    Tracks sv streams files alike unshared e
      { p with
        calls := p.calls ++ [.leg (.serving (.asked d))]
        deeds := p.deeds ++ [.calls d] }
      (a.act sv (.calls d)) where
  calls := List.rel_append h.calls (.cons rfl .nil)
  started := h.started
  session := h.session
  store := h.store
  config := h.config
  stands := h.stands

/-- A move in the cache for one of the calls is not known alone. -/
theorem Tracks.moves (h : Tracks sv streams files alike unshared e p a)
    (hfree : CollisionFree sv.backend.environment streams)
    (hgood : e.schedule.Good sv.backend streams) {k : Nat} {c c' : Course π}
    {schedule : Schedule π} (hc : p.calls[k]? = some c)
    (hmove : c.Moves sv.backend e.schedule c' schedule) :
    Tracks sv streams files alike unshared { e with schedule := schedule }
      { p with calls := p.calls.set k c' } a := by
  rcases getElem?_of_forall₂ h.calls hc with ⟨l, hl, hcomes⟩
  rcases hcomes.moves hfree hgood hmove with ⟨hfollows, hcomes'⟩
  refine ⟨?_, h.started, h.session, h.store, h.config, h.stands⟩
  have hset := forall₂_set h.calls (fun _ _ hcall => hcall.keeps hfollows.keeps) k hcomes'
  rwa [set_of_getElem? hl] at hset

/-- The session is removed on both engines. -/
theorem Tracks.lapses (h : Tracks sv streams files alike unshared e p a) {s : Session}
    {id : SessionId} (hid : p.id? = some id) (hhosts : Hosts sv streams id e s)
    (hkeeps : e.schedule.machine.Keeps (e.remove s).schedule.machine) :
    Tracks sv streams files alike unshared (e.remove s)
      { p with deeds := p.deeds ++ [.lapses] } (a.act sv .lapses) := by
  rcases hhosts.removed with ⟨_, hmissing, hrests⟩
  have hpresent : e.session? p.id? = some s := by
    rw [hid]
    exact hhosts.session
  have hgone : (e.remove s).session? p.id? = none := by
    rw [hid]
    exact hmissing
  have hlike := h.session
  rw [hpresent] at hlike
  rcases ht : a.engine.session? a.id? with _ | t
  · rw [ht] at hlike
    cases hlike
  · rcases Option.bind_eq_some_iff.mp ht with ⟨id', hid', ht'⟩
    have hown := h.stands.session id' t hid' ht'
    have hhosts' : Hosts sv streams id' a.engine t :=
      ⟨h.stands.schedule, ht', hown.left, hown.right⟩
    rcases hhosts'.removed with ⟨hgood', hmissing', hrests'⟩
    have hgone' : (a.engine.remove t).session? a.id? = none := by
      rw [hid']
      exact hmissing'
    have hact : a.act sv .lapses = { a with engine := a.engine.remove t } := by
      simp only [Alone.act, ht]
    rw [hact]
    refine ⟨h.calls.imp fun _ _ hcall => hcall.keeps hkeeps, h.started, ?_, ?_, ?_, hgood', ?_⟩
    · change Option.Rel Session.Like ((e.remove s).session? p.id?)
        ((a.engine.remove t).session? a.id?)
      rw [hgone, hgone']
      exact .none
    · change sv.store.Paired files alike unshared (e.remove s).store (a.engine.remove t).store
      rw [hrests.left, hrests'.left]
      exact h.store
    · exact (hrests'.right.trans h.config).trans hrests.right.symm
    · intro other u hother hu
      cases hid'.symm.trans hother
      cases hmissing'.symm.trans hu

/-- A call takes its next step on both engines. -/
theorem Tracks.turns (h : Tracks sv streams files alike unshared e p a)
    (hst : sv.store.Discreet files alike)
    (hfree : CollisionFree sv.backend.environment streams)
    (hcompiles : ∀ u, ∃ a, sv.backend.compile u = .compiled a)
    (hfamiliar : ∀ s, e.session? p.id? = some s → Familiar sv streams s) {k : Nat} {l : Leg}
    (hl : p.calls[k]? = some (.leg l))
    (hturned : Turned sv streams p.id? e l (Course.turn sv p.id? e l))
    (hbrings : ∀ w, l.Brings sv (e.session? p.id?) w → ∀ id q,
      (Context.ofWorkspace id w).Covered sv.backend.environment streams q)
    (hlooks : l.looks → unshared) (hwrites : ∀ path, l.writes? = some path → path ∈ files)
    (hunshared : unshared' → unshared) :
    let next := Course.turn sv p.id? e l
    Tracks sv streams files alike unshared' next.2.2
      { p with
        id? := next.2.1
        calls := p.calls.set k next.1
        deeds := p.deeds ++ [.turns k] }
      (a.act sv (.turns k)) := by
  intro next
  rcases getElem?_of_forall₂ h.calls hl with ⟨l', hl', haside⟩
  have hact : a.act sv (.turns k) =
      ⟨(l'.advance sv a.id? a.engine).2.2, (l'.advance sv a.id? a.engine).2.1,
        a.legs.set k (l'.advance sv a.id? a.engine).1⟩ := by
    simp only [Alone.act, hl']
  have hfamiliar' (t : Session) (ht : a.engine.session? a.id? = some t) :
      Familiar sv streams t := by
    have hlike := h.session
    rw [ht] at hlike
    cases hs : e.session? p.id? with
    | none =>
        rw [hs] at hlike
        cases hlike
    | some s =>
        rw [hs] at hlike
        cases hlike with
        | some hlike => exact (hfamiliar s hs).like hlike
  have hmeets := l'.advance_meets h.stands hfree hcompiles hfamiliar' fun w hw =>
    hbrings w (hw.congr haside h.session)
  have hlike := Leg.effect_like hst haside h.session h.store hlooks hwrites
    e.config.edits.includeAnalyzers h.started
  rw [h.config] at hmeets
  have hstarted : (l'.advance sv a.id? a.engine).2.1.isSome = next.2.1.isSome := by
    rw [Leg.isSome_advance, Course.isSome_turn, h.started, Leg.opens_congr haside]
  rw [hact]
  rcases hadvance : l'.advance sv a.id? a.engine with ⟨l'', id'', e''⟩
  rw [hadvance] at hmeets hstarted
  rcases hmeets with ⟨hl'', hsession, hstore, hconfig, hstands⟩
  have hkeeps := Machine.keeps_of_tasks_eq hturned.keeping.tasks
  refine ⟨?_, hstarted, like_of_like hlike.session hturned.session hsession, ?_, ?_, hstands⟩
  · refine forall₂_set h.calls (fun _ _ hcall => hcall.keeps hkeeps) k ?_
    exact hturned.comes.of_aside (hl'' ▸ hlike.leg)
  · change sv.store.Paired files alike unshared' next.2.2.store e''.store
    rw [hturned.store, hstore]
    exact hlike.store.imp hunshared
  · exact hconfig.trans hturned.config.symm

end

/-!
# Runs
-/

namespace Commons

section

variable {sv : Services σ π} {streams : Set (List UInt8)} {files : Set Path}
  {alike : σ → σ → Prop} {config : Config} {store : σ} {w w' : Commons σ π} {i : Nat}
  {p : Party π} {turn? : Option (Nat × Leg)}

/-- A party looks at no file once somebody else has written one. Whoever writes a file
writes one of those that can be written independently of each other. -/
def Heeds (files : Set Path) (i : Nat) (w : Commons σ π) : Option (Nat × Leg) → Prop
  | none => True
  | some (j, l) =>
      (j = i → l.looks → ∀ m ∈ w.writers, m = i) ∧ ∀ path, l.writes? = some path → path ∈ files

/-- One step after the other. What is hashed is among streams all the time. -/
inductive Run (sv : Services σ π) (streams : Set (List UInt8)) (files : Set Path) (i : Nat)
    (w : Commons σ π) : Commons σ π → Prop where
  | nothing : Run sv streams files i w w
  | step {w' w'' : Commons σ π} {turn? : Option (Nat × Leg)} (hrun : Run sv streams files i w w')
      (hheeds : w'.Heeds files i turn?) (hstep : w'.Step sv turn? w'')
      (hcovers : w''.Covers sv streams) : Run sv streams files i w w''

/-- The party with a number is as far as alone, or has not come yet. -/
structure Attended (sv : Services σ π) (streams : Set (List UInt8)) (files : Set Path)
    (alike : σ → σ → Prop) (config : Config) (store : σ) (i : Nat) (w : Commons σ π) :
    Prop where
  sound : w.Sound sv streams
  covers : w.Covers sv streams
  configured : w.engine.config = config
  awaits : w.parties[i]? = none →
    sv.store.Paired files alike (∀ m ∈ w.writers, m = i) w.engine.store store
  tracks : ∀ p, w.parties[i]? = some p →
    Tracks sv streams files alike (∀ m ∈ w.writers, m = i) w.engine p (p.alone sv config store)

theorem attended_start (hstore : alike store store) (config : Config) (i : Nat) :
    (start config store : Commons σ π).Attended sv streams files alike config store i where
  sound := sound_start config store
  covers id s hs := by cases hs
  configured := rfl
  awaits _ := Store.paired_refl hstore
  tracks p hp := by cases hp

/-- Somebody else has done something, or nobody has. -/
theorem Attended.beside (h : w.Attended sv streams files alike config store i)
    (hsound : w'.Sound sv streams) (hcovers : w'.Covers sv streams)
    (hparties : w'.parties[i]? = w.parties[i]?)
    (hkeeps : w.engine.schedule.machine.Keeps w'.engine.schedule.machine)
    (hsession : ∀ p, w.parties[i]? = some p →
      w'.engine.session? p.id? = w.engine.session? p.id?)
    (hstore : ∀ m', sv.store.Paired files alike (∀ m ∈ w.writers, m = i) w.engine.store m' →
      sv.store.Paired files alike (∀ m ∈ w'.writers, m = i) w'.engine.store m')
    (hconfig : w'.engine.config = w.engine.config) :
    w'.Attended sv streams files alike config store i where
  sound := hsound
  covers := hcovers
  configured := hconfig.trans h.configured
  awaits hnone := hstore _ (h.awaits (hparties ▸ hnone))
  tracks p hp := by
    have hp : w.parties[i]? = some p := hparties ▸ hp
    have htracks := h.tracks p hp
    exact htracks.beside hkeeps (hsession p hp) (hstore _ htracks.store) hconfig

/-- The party itself has done something. -/
theorem Attended.own (h : w.Attended sv streams files alike config store i)
    (hp : w.parties[i]? = some p) (hsound : w'.Sound sv streams) (hcovers : w'.Covers sv streams)
    {p' : Party π} (hparties : w'.parties = w.parties.set i p')
    (hconfig : w'.engine.config = w.engine.config)
    (htracks : Tracks sv streams files alike (∀ m ∈ w'.writers, m = i) w'.engine p'
      (p'.alone sv config store)) :
    w'.Attended sv streams files alike config store i := by
  have hfound : w'.parties[i]? = some p' := by
    rw [hparties]
    exact List.getElem?_set_self (List.getElem?_eq_some_iff.mp hp).choose
  refine ⟨hsound, hcovers, hconfig.trans h.configured, fun hnone => ?_, fun q hq => ?_⟩
  · cases hfound.symm.trans hnone
  · cases hfound.symm.trans hq
    exact htracks

theorem Covers.familiar (h : w.Covers sv streams) {id? : Option SessionId} {s : Session}
    (hs : w.engine.session? id? = some s) : Familiar sv streams s := by
  rcases Option.bind_eq_some_iff.mp hs with ⟨id, _, hs⟩
  exact h id s hs

theorem mem_writers_turned {j k : Nat} {q : Party π} {l : Leg} {m : Nat} (hm : m ∈ w.writers) :
    m ∈ (w.turned sv j q k l).writers := by
  unfold turned
  simp only
  split
  · exact List.mem_cons_of_mem _ hm
  · exact hm

theorem mem_writers_of_wrote {j k : Nat} {q : Party π} {l : Leg}
    (hwrote : l.wrote sv.store w.engine.store) : j ∈ (w.turned sv j q k l).writers := by
  unfold turned
  simp only
  rw [if_pos hwrote]
  exact List.mem_cons_self

/-- What one party does to its session leaves the session of another alone. -/
theorem Sound.session?_eq (h : w.Sound sv streams) {j : Nat} {q : Party π}
    (hq : w.parties[j]? = some q) (hp : w.parties[i]? = some p) (hj : j ≠ i)
    {id? : Option SessionId} {e' : Engine σ π} (hkeeping : Keeping id? w.engine e')
    (hnumbers : Numbers q.id? id? w.engine e') : e'.session? p.id? = w.engine.session? p.id? := by
  cases hid : p.id? with
  | none => rfl
  | some id =>
      refine hkeeping.others id ?_
      intro hsame
      rcases hnumbers with ⟨hown, _⟩ | ⟨hnew, _⟩
      · exact hj (h.apart j i q p id hq hp (hown ▸ hsame) hid)
      · exact h.ne_nextId hp hid (Option.some.inj (hsame.symm.trans hnew))

/-- Somebody has taken the next step of a call. -/
theorem Attended.turns (h : w.Attended sv streams files alike config store i)
    (hst : sv.store.Discreet files alike)
    (hfree : CollisionFree sv.backend.environment streams)
    (hcompiles : ∀ u, ∃ a, sv.backend.compile u = .compiled a) {j k : Nat} {q : Party π} {l : Leg}
    (hheeds : w.Heeds files i (some (j, l))) (hq : w.parties[j]? = some q)
    (hl : q.calls[k]? = some (.leg l)) (hsound : (w.turned sv j q k l).Sound sv streams)
    (hcovers : (w.turned sv j q k l).Covers sv streams) :
    (w.turned sv j q k l).Attended sv streams files alike config store i := by
  have hturned := h.sound.turned_turned (p := q) hfree hcompiles h.covers hcovers
  have hunshared (hall : ∀ m ∈ (w.turned sv j q k l).writers, m = i) : ∀ m ∈ w.writers, m = i :=
    fun m hm => hall m (mem_writers_turned hm)
  by_cases hj : j = i
  · subst hj
    refine h.own hq hsound hcovers rfl hturned.config ?_
    rw [Party.alone_also]
    exact (h.tracks q hq).turns hst hfree hcompiles (fun s hs => h.covers.familiar hs) hl hturned
      (fun workspace hbrings => h.sound.covered_of_brings hcovers hbrings) (hheeds.left rfl)
      hheeds.right hunshared
  · refine h.beside hsound hcovers (List.getElem?_set_ne hj)
      (Machine.keeps_of_tasks_eq hturned.keeping.tasks)
      (fun p hp => h.sound.session?_eq hq hp hj hturned.keeping hturned.numbers) ?_ hturned.config
    intro m' hstore
    change sv.store.Paired files alike _ (Course.turn sv q.id? w.engine l).2.2.store m'
    rw [hturned.store]
    exact Leg.paired_effect hst hstore hheeds.right hunshared
      (fun hwrote hall => hj (hall j (mem_writers_of_wrote hwrote))) _

/-- Somebody has come. -/
theorem Attended.joined (h : w.Attended sv streams files alike config store i) (source : Source)
    (root : Path) (choice : AnalyzerChoice) :
    ({ w with parties := w.parties ++ [.new source root choice] } : Commons σ π).Attended
      sv streams files alike config store i := by
  have hsound := h.sound.joined source root choice
  rcases lt_trichotomy i w.parties.length with hi | rfl | hi
  · exact h.beside hsound h.covers (List.getElem?_append_left hi) (.refl _) (fun _ _ => rfl)
      (fun _ hstore => hstore) rfl
  · have hfound : (w.parties ++ [.new source root choice])[w.parties.length]? =
        some (.new source root choice) := List.getElem?_concat_length
    refine ⟨hsound, h.covers, h.configured, fun hnone => ?_, fun p hp => ?_⟩
    · cases hfound.symm.trans hnone
    · cases hfound.symm.trans hp
      exact tracks_new h.configured (h.awaits (List.getElem?_eq_none le_rfl)) source root choice
  · have hparties : (w.parties ++ [.new source root choice])[i]? = w.parties[i]? := by
      rw [List.getElem?_eq_none hi.le, List.getElem?_eq_none]
      simpa only [List.length_append, List.length_singleton] using Nat.succ_le_of_lt hi
    exact h.beside hsound h.covers hparties (.refl _) (fun _ _ => rfl) (fun _ hstore => hstore) rfl

/-- The session of somebody has been removed. -/
theorem Attended.lapses (h : w.Attended sv streams files alike config store i) {j : Nat}
    {q : Party π} {s : Session} (hq : w.parties[j]? = some q)
    (hs : w.engine.session? q.id? = some s) {w' : Commons σ π}
    (hw' : w' = { w with
      engine := w.engine.remove s
      parties := w.parties.set j { q with deeds := q.deeds ++ [.lapses] } })
    (hsound : w'.Sound sv streams) (hcovers : w'.Covers sv streams) :
    w'.Attended sv streams files alike config store i := by
  subst hw'
  rcases h.sound.beside_remove hs with ⟨hbeside, hpresent, hid⟩
  have hhosts : Hosts sv streams s.id w.engine s :=
    ⟨h.sound.schedule, hpresent, rfl, (h.sound.tidy _ s hpresent).right⟩
  have hrests := hhosts.removed.right.right
  have hkeeps := Machine.keeps_of_tasks_eq hbeside.tasks
  by_cases hj : j = i
  · subst hj
    refine h.own hq hsound hcovers rfl hrests.right ?_
    rw [Party.alone_also]
    exact (h.tracks q hq).lapses hid hhosts hkeeps
  · refine h.beside hsound hcovers (List.getElem?_set_ne hj) hkeeps ?_ ?_ hrests.right
    · intro p hp
      exact h.sound.session?_eq hq hp hj hbeside.keeping (.inl ⟨hid.symm, hbeside.started⟩)
    · intro m' hstore
      change sv.store.Paired files alike _ (w.engine.remove s).store m'
      rw [hrests.left]
      exact hstore

theorem Attended.step (h : w.Attended sv streams files alike config store i)
    (hst : sv.store.Discreet files alike)
    (hfree : CollisionFree sv.backend.environment streams)
    (hcompiles : ∀ u, ∃ a, sv.backend.compile u = .compiled a) (hheeds : w.Heeds files i turn?)
    (hstep : w.Step sv turn? w') (hcovers : w'.Covers sv streams) :
    w'.Attended sv streams files alike config store i := by
  have hsound := h.sound.step hfree hcompiles h.covers hcovers hstep
  -- The cache goes on without the parties.
  have hcache {schedule : Schedule π} (hw' : w' = w.withSchedule schedule)
      (hkeeps : w.engine.schedule.machine.Keeps schedule.machine) :
      w'.Attended sv streams files alike config store i := by
    subst hw'
    exact h.beside hsound hcovers rfl hkeeps (fun _ _ => rfl) (fun _ hstore => hstore) rfl
  cases hstep with
  | work hwork =>
      cases hwork with
      | turn hq hl hopen => exact h.turns hst hfree hcompiles hheeds hq hl hsound hcovers
      | @move j k q c c' schedule hq hc hmove =>
          rcases h.sound.calls j q hq c (List.mem_of_getElem? hc) with ⟨l, hl⟩
          have hkeeps := (hl.moves hfree h.sound.schedule hmove).left.keeps
          by_cases hj : j = i
          · subst hj
            exact h.own hq hsound hcovers rfl rfl
              ((h.tracks q hq).moves hfree h.sound.schedule hc hmove)
          · exact h.beside hsound hcovers (List.getElem?_set_ne hj) hkeeps (fun _ _ => rfl)
              (fun _ hstore => hstore) rfl
      | job hjob =>
          exact hcache rfl ((Schedule.steps_of_stepJob hjob).keeps h.sound.schedule.formed)
  | joins source root choice => exact h.joined source root choice
  | @calls j q hq hstarted d =>
      by_cases hj : j = i
      · subst hj
        refine h.own hq hsound hcovers rfl rfl ?_
        rw [Party.alone_also]
        exact (h.tracks q hq).calls_also d
      · exact h.beside hsound hcovers (List.getElem?_set_ne hj) (.refl _) (fun _ _ => rfl)
          (fun _ hstore => hstore) rfl
  | lapses hq hs => exact h.lapses hq hs rfl hsound hcovers
  | leave hqueue hjob => exact hcache rfl (Machine.keeps_of_tasks_eq rfl)
  | upkeep u => exact hcache rfl (Machine.keeps_of_tasks_eq rfl)
  | tick elapsed => exact hcache rfl (Machine.keeps_of_tasks_eq rfl)

/-- So it is all along a run. -/
theorem attended_run (hst : sv.store.Discreet files alike)
    (hfree : CollisionFree sv.backend.environment streams)
    (hcompiles : ∀ u, ∃ a, sv.backend.compile u = .compiled a) (hstore : alike store store)
    (hrun : (start config store : Commons σ π).Run sv streams files i w) :
    w.Attended sv streams files alike config store i := by
  induction hrun with
  | nothing => exact attended_start hstore config i
  | step _ hheeds hstep hcovers ih => exact ih.step hst hfree hcompiles hheeds hstep hcovers

/-- A call comes to what it comes to alone. -/
theorem Attended.answer?_alone (h : w.Attended sv streams files alike config store i)
    (hp : w.parties[i]? = some p) {k : Nat} {answer : Except Halt Answer}
    (hanswer : p.answer? k = some answer) :
    (p.alone sv config store).answer? k = some answer := by
  rcases Option.bind_eq_some_iff.mp hanswer with ⟨c, hc, hanswer⟩
  rcases getElem?_of_forall₂ (h.tracks p hp).calls hc with ⟨l, hl, hcomes⟩
  exact Option.bind_eq_some_iff.mpr ⟨l, hl, hcomes.answer_eq hanswer⟩

/-- It does not matter who the others are. -/
theorem answer?_eq_of_deeds_eq {w' : Commons σ π} {i' : Nat} {p' : Party π}
    (hst : sv.store.Discreet files alike)
    (hfree : CollisionFree sv.backend.environment streams)
    (hcompiles : ∀ u, ∃ a, sv.backend.compile u = .compiled a) (hstore : alike store store)
    (hrun : (start config store : Commons σ π).Run sv streams files i w)
    (hrun' : (start config store : Commons σ π).Run sv streams files i' w')
    (hp : w.parties[i]? = some p) (hp' : w'.parties[i']? = some p')
    (hsource : p'.source = p.source) (hroot : p'.root = p.root) (hchoice : p'.choice = p.choice)
    (hdeeds : p'.deeds = p.deeds) {k : Nat} {answer answer' : Except Halt Answer}
    (hanswer : p.answer? k = some answer) (hanswer' : p'.answer? k = some answer') :
    answer' = answer := by
  have halone : p'.alone sv config store = p.alone sv config store := by
    unfold Party.alone
    rw [hsource, hroot, hchoice, hdeeds]
  have h := (attended_run hst hfree hcompiles hstore hrun).answer?_alone hp hanswer
  have h' := (attended_run hst hfree hcompiles hstore hrun').answer?_alone hp' hanswer'
  rw [halone] at h'
  exact Option.some.inj (h'.symm.trans h)

end

end Commons

/-!
# Two parties on two files

For an example, one party gives one of the files a text and commits it. The other party
has loaded the files before that, and asks afterwards what is pending.
-/

inductive Act where
  | joins
  | calls (i : Nat) (d : Demand)
  | turns (i k : Nat)

namespace Commons

variable {w₀ w : Commons Memory (List Document)}

/-- It can be done, and the first party looks at no file too late. -/
def allows (w : Commons Memory (List Document)) : Act → Bool
  | .joins => true
  | .calls i _ => w.parties[i]?.any fun p => p.id?.isSome
  | .turns i k =>
      w.parties[i]?.any fun p => p.calls[k]?.any fun
        | .leg l => l.answer?.isNone && (i != 0 || !l.looks || w.writers.all (· = 0))
        | .working _ _ => false

end Commons
end Engine
end Ripple
