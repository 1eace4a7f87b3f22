import Ripple.Proofs.Cache.Publishing
import Ripple.Proofs.Cache.Restraint

/-!
# Runs that can be carried out

A run of what is under way can be given as a list of deeds and carried out. A deed that
cannot be done changes nothing.
-/

namespace Ripple
namespace Cache

variable {π : Type}

/-!
# Clients
-/

namespace ClientStage

/-- The reply of a client that has returned. -/
def reply? : ClientStage π → Option (Reply π)
  | .returned reply => some reply
  | _ => none

/-- The next move of a client. -/
def next? (b : Backend π) (s : Schedule π) : ClientStage π → Option (ClientStage π × Schedule π)
  | .following (.done reply) => some (.returned reply, s)
  | .following (.request ctx id next) => some (.requesting (.of ctx id) next, s)
  | .following (.compile u next) => some (.compiling u next, s.recordCall u)
  | .following (.consult key next) => some (.following (next (s.tables.listings.get? key)), s)
  | .following (.file key f ds next) =>
      let (held, s) := s.fileListing key f ds
      some (.following (next held), s)
  | .requesting r next =>
      if r.isActive then
        let (r, m) := r.step b.environment s.machine
        some (.requesting r next, s.after m)
      else (r.result? s.machine).map fun result => (.following (next result), s)
  | .compiling u next =>
      match s.answer b u with
      | some (result, s) => some (.following (next result), s)
      | none => some (.panicked, s)
  | .returned _ | .panicked | .cancelled => none

theorem moves_of_next? {b : Backend π} {s s' : Schedule π} {stage stage' : ClientStage π}
    (h : stage.next? b s = some (stage', s')) : stage.Moves b s stage' s' := by
  cases stage with
  | following plan =>
      cases plan <;> cases h
      · exact .returns
      · exact .asks
      · exact .compiles
      · exact .consults
      · exact .files
  | requesting r next =>
      simp only [next?] at h
      by_cases hactive : r.isActive
      · rw [if_pos hactive] at h
        cases h
        exact .goesOn hactive
      · rw [if_neg hactive] at h
        rcases Option.map_eq_some_iff.mp h with ⟨result, hresult, hnext⟩
        cases hnext
        exact .hears hresult
  | compiling u next =>
      simp only [next?] at h
      cases hanswer : s.answer b u with
      | none =>
          rw [hanswer] at h
          cases h
          exact .panics hanswer
      | some answer =>
          rw [hanswer] at h
          cases h
          exact .receives hanswer
  | returned reply => cases h
  | panicked => cases h
  | cancelled => cases h

theorem nextBatch_of_moves {b : Backend π} {s s' : Schedule π} {stage stage' : ClientStage π}
    (h : stage.Moves b s stage' s') : s'.nextBatch = s.nextBatch := by
  cases h with
  | receives hanswer =>
      rcases Schedule.eq_of_answer hanswer with rfl | ⟨a, rfl⟩
      · rfl
      · rfl
  | _ => rfl

end ClientStage

/-!
# Worlds
-/

/-- No task that goes on holding its slot, and has not stored its artifact meanwhile, loses
its flight. -/
def Machine.sparing (m m' : Machine π) : Bool :=
  m.tasks.rows.all fun row =>
    !row.2.stage.isHolding ||
      (m'.tasks.get? row.1).all (fun t =>
        !t.stage.isHolding || t.stage.isStoring != row.2.stage.isStoring) ||
      decide (m'.tables.flights.get? row.2.slot = m.tables.flights.get? row.2.slot)

theorem Machine.spares_of_sparing {m m' : Machine π} (h : m.sparing m') : m.Spares m' := by
  intro ticket t ht ht' hholding
  have hrow := List.all_eq_true.mp h _ (Table.mem_rows_of_get? ht)
  simpa [hholding, ht'] using hrow

/-- Something under way to go on with: a job, or the client at a place. -/
inductive Deed where
  | work (job : Job)
  | move (client : Nat)

namespace World

def next? (b : Backend π) (w : World π) : Deed → Option (World π)
  | .work job => do
      let s ← w.schedule.stepJob b job
      some { w with schedule := s }
  | .move i => do
      let c ← w.clients[i]?
      let (stage, s) ← c.stage.next? b w.schedule
      some
        { w with
          schedule := s
          clients := w.clients.set i { c with stage := stage }
          printed := c.stage.hashes ++ w.printed }

theorem work_of_next? {b : Backend π} {w w' : World π} {deed : Deed}
    (h : w.next? b deed = some w') : w.Work b w' ∧ w.StartsNothing w' := by
  cases deed with
  | work job =>
      rcases Option.bind_eq_some_iff.mp h with ⟨s, hjob, hw⟩
      cases hw
      refine ⟨.job hjob, rfl, ?_⟩
      cases Schedule.steps_of_stepJob hjob <;> rfl
  | move i =>
      rcases Option.bind_eq_some_iff.mp h with ⟨c, hc, h⟩
      rcases Option.bind_eq_some_iff.mp h with ⟨⟨stage, s⟩, hnext, hw⟩
      cases hw
      have hmove := ClientStage.moves_of_next? hnext
      rcases List.getElem?_eq_some_iff.mp hc with ⟨hi, rfl⟩
      refine ⟨?_, List.length_set, ClientStage.nextBatch_of_moves hmove⟩
      rw [List.set_eq_take_append_cons_drop, if_pos hi]
      refine .client ?_ hmove
      rw [List.getElem_cons_drop, List.take_append_drop]

/-- Does a deed where it can be done. -/
def perform (b : Backend π) (w : World π) (deed : Deed) : World π :=
  match w.next? b deed with
  | some w' => if w.machine.sparing w'.machine then w' else w
  | none => w

theorem turn_of_perform {b : Backend π} {backends : Set (Backend π)} (hb : b ∈ backends)
    {allowed : Set Upkeep} (w : World π) (deed : Deed) :
    w.perform b deed = w ∨
      (w.Turn backends allowed (w.perform b deed) ∧ w.StartsNothing (w.perform b deed)) := by
  unfold perform
  cases hnext : w.next? b deed with
  | none => exact .inl rfl
  | some w' =>
      simp only
      by_cases hsparing : w.machine.sparing w'.machine
      · rw [if_pos hsparing]
        rcases work_of_next? hnext with ⟨hwork, hstarts⟩
        exact .inr ⟨.work hb hwork (Machine.spares_of_sparing hsparing), hstarts⟩
      · exact .inl (if_neg hsparing)

/-- Does one deed after another. -/
def play (b : Backend π) (w : World π) (deeds : List Deed) : World π :=
  deeds.foldl (perform b) w

theorem leads_play {b : Backend π} {backends : Set (Backend π)} (hb : b ∈ backends)
    {allowed : Set Upkeep} (w : World π) (deeds : List Deed) :
    w.Leads backends allowed (w.play b deeds) := by
  induction deeds generalizing w with
  | nil => exact .refl
  | cons deed deeds ih =>
      rcases turn_of_perform hb w deed with hsame | ⟨hturn, _⟩
      · rw [play, List.foldl_cons, hsame]
        exact ih w
      · exact .head hturn (ih _)

end World
end Cache
end Ripple
