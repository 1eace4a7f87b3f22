import Mathlib.Tactic.Basic
import Ripple.Engine.Edits
import Ripple.Engine.Queries

/-!
# What operations return

An operation returns an answer and leaves an engine, or it halts. Operations that
follow each other return what the last one does, if all of them return.
-/

namespace Ripple

open Cache

namespace Operation

variable {σ π α β : Type} {e e' : Engine σ π}

def Returns (op : Operation σ π α) (e : Engine σ π) (a : α) (e' : Engine σ π) : Prop :=
  op.run e = (.ok a, e')

theorem run_bind (op : Operation σ π α) (k : α → Operation σ π β) (e : Engine σ π) :
    (op >>= k).run e =
      match op.run e with
      | (.ok a, e') => (k a).run e'
      | (.error h, e') => (.error h, e') := by
  change (match (op.run e : Except Halt α × Engine σ π) with
    | (result, e') => ExceptT.bindCont k result e') = _
  rcases op.run e with ⟨_ | _, _⟩ <;> rfl

/-- What follows an answer goes on from it. -/
theorem Returns.run_bind {op : Operation σ π α} {a : α} (h : op.Returns e a e')
    (k : α → Operation σ π β) : (op >>= k).run e = (k a).run e' := by
  rw [Operation.run_bind, h]

theorem returns_pure_iff {a a' : α} :
    (pure a : Operation σ π α).Returns e a' e' ↔ a' = a ∧ e' = e := by
  change ((.ok a, e) : Except Halt α × Engine σ π) = (.ok a', e') ↔ _
  simp [eq_comm]

theorem returns_bind_iff {op : Operation σ π α} {k : α → Operation σ π β} {c : β} :
    (op >>= k).Returns e c e' ↔ ∃ a e₁, op.Returns e a e₁ ∧ (k a).Returns e₁ c e' := by
  unfold Returns
  rw [run_bind]
  rcases op.run e with ⟨h | a, e₁⟩
  · constructor
    · intro h
      cases h
    · rintro ⟨a, e₁, h, _⟩
      cases h
  · constructor
    · intro h
      exact ⟨a, e₁, rfl, h⟩
    · rintro ⟨a', e₁', h, hk⟩
      cases h
      exact hk

theorem not_returns_fail {error : Error} {a : α} :
    ¬ (fail error : Operation σ π α).Returns e a e' := by
  intro h
  cases h

theorem returns_get_iff {a : Engine σ π} :
    (get : Operation σ π (Engine σ π)).Returns e a e' ↔ a = e ∧ e' = e := by
  change ((.ok e, e) : Except Halt (Engine σ π) × Engine σ π) = (.ok a, e') ↔ _
  simp [eq_comm]

theorem returns_set_iff {e₁ : Engine σ π} {u : PUnit} :
    (set e₁ : Operation σ π PUnit).Returns e u e' ↔ e' = e₁ := by
  change ((.ok ⟨⟩, e₁) : Except Halt PUnit × Engine σ π) = (.ok u, e') ↔ _
  simp [eq_comm]

theorem returns_modify_iff {f : Engine σ π → Engine σ π} {u : PUnit} :
    (modify f : Operation σ π PUnit).Returns e u e' ↔ e' = f e := by
  change ((.ok ⟨⟩, f e) : Except Halt PUnit × Engine σ π) = (.ok u, e') ↔ _
  simp [eq_comm]

/-- An operation gives an answer or fails with an error: it does not panic, and it does
not wait for ever. -/
def Completes (op : Operation σ π α) (e : Engine σ π) : Prop :=
  ∀ halt e', op.run e = (.error halt, e') → ∃ error, halt = .failed error

theorem completes_bind_iff {op : Operation σ π α} {k : α → Operation σ π β}
    (hk : ∀ a e', (k a).Completes e') : (op >>= k).Completes e ↔ op.Completes e := by
  unfold Completes
  rw [run_bind]
  rcases op.run e with ⟨halt | a, e₁⟩
  · constructor
    · intro h halt' e' hrun
      cases hrun
      exact h _ _ rfl
    · intro h halt' e' hrun
      cases hrun
      exact h _ _ rfl
  · exact ⟨fun _ _ _ h => (by cases h), fun _ => hk a e₁⟩

/-!
# Sessions and tables
-/

theorem returns_find_iff {id : SessionId} {s : Session} :
    (find id : Operation σ π Session).Returns e s e' ↔
      e.sessions.get? id = some s ∧ e' = e := by
  unfold find
  rw [returns_bind_iff]
  constructor
  · rintro ⟨e₁, e₂, hget, h⟩
    rcases returns_get_iff.mp hget with ⟨rfl, rfl⟩
    cases hs : e₂.sessions.get? id with
    | none =>
        simp only [hs] at h
        exact (not_returns_fail h).elim
    | some s' =>
        simp only [hs] at h
        rcases returns_pure_iff.mp h with ⟨rfl, rfl⟩
        exact ⟨rfl, rfl⟩
  · rintro ⟨hs, rfl⟩
    refine ⟨_, _, returns_get_iff.mpr ⟨rfl, rfl⟩, ?_⟩
    simp only [hs]
    exact returns_pure_iff.mpr ⟨rfl, rfl⟩

theorem returns_use_iff {id : SessionId} {s : Session} :
    (use id : Operation σ π Session).Returns e s e' ↔
      ∃ s₀, e.sessions.get? id = some s₀ ∧ s = { s₀ with lastAccess := e.clock } ∧
        e' = e.setSession s := by
  unfold use
  simp only [returns_bind_iff, returns_find_iff, returns_get_iff, returns_modify_iff,
    returns_pure_iff]
  constructor
  · rintro ⟨s₀, _, ⟨hs, rfl⟩, _, _, ⟨rfl, rfl⟩, _, _, rfl, rfl, rfl⟩
    exact ⟨s₀, hs, rfl, rfl⟩
  · rintro ⟨s₀, hs, rfl, rfl⟩
    exact ⟨s₀, _, ⟨hs, rfl⟩, _, _, ⟨rfl, rfl⟩, ⟨⟩, _, rfl, rfl, rfl⟩

theorem returns_setSession_iff {s : Session} {u : Unit} :
    (setSession s : Operation σ π Unit).Returns e u e' ↔ e' = e.setSession s :=
  returns_modify_iff

theorem returns_updateTables_iff {f : Tables π → Tables π} {u : Unit} :
    (updateTables f : Operation σ π Unit).Returns e u e' ↔ e' = e.updateTables f :=
  returns_modify_iff

theorem returns_writeText_iff {sv : Services σ π} {path : Path} {text : String}
    {result : Except FileError Unit} :
    (writeText sv path text).Returns e result e' ↔
      result = (sv.store.write e.store path text).1 ∧
        e' = { e with store := (sv.store.write e.store path text).2 } := by
  unfold writeText
  simp only [returns_bind_iff, returns_get_iff, returns_set_iff, returns_pure_iff]
  constructor
  · rintro ⟨_, _, ⟨rfl, rfl⟩, _, _, rfl, rfl, rfl⟩
    exact ⟨rfl, rfl⟩
  · rintro ⟨rfl, rfl⟩
    exact ⟨_, _, ⟨rfl, rfl⟩, ⟨⟩, _, rfl, rfl, rfl⟩

/-!
# Plans
-/

theorem returns_perform {sv : Services σ π} {p : Plan π α} {a : α} {s : Schedule π}
    (h : e.schedule.drive sv.backend p = (.returned a, s)) :
    (perform sv p).Returns e a { e with schedule := s } := by
  unfold perform
  refine returns_bind_iff.mpr ⟨_, _, returns_get_iff.mpr ⟨rfl, rfl⟩, ?_⟩
  rw [h]
  refine returns_bind_iff.mpr ⟨⟨⟩, _, returns_set_iff.mpr rfl, ?_⟩
  exact returns_pure_iff.mpr ⟨rfl, rfl⟩

theorem returns_mapM_ofExit {exits : List (Schedule.Exit α)} {as : List α}
    (h : exits = as.map .returned) :
    (exits.mapM ofExit : Operation σ π (List α)).Returns e as e := by
  subst h
  induction as with
  | nil => exact returns_pure_iff.mpr ⟨rfl, rfl⟩
  | cons a as ih =>
      rw [List.map_cons, List.mapM_cons]
      refine returns_bind_iff.mpr ⟨a, e, returns_pure_iff.mpr ⟨rfl, rfl⟩, ?_⟩
      refine returns_bind_iff.mpr ⟨as, e, ih, ?_⟩
      exact returns_pure_iff.mpr ⟨rfl, rfl⟩

/-- A panic of one caller is that of the operation, if no caller is left waiting. -/
theorem run_mapM_ofExit_panicked {exits : List (Schedule.Exit α)}
    (hpanicked : .panicked ∈ exits) (hblocked : .blocked ∉ exits) :
    (exits.mapM ofExit : Operation σ π (List α)).run e = (.error .panicked, e) := by
  induction exits with
  | nil => cases hpanicked
  | cons exit exits ih =>
      rw [List.mapM_cons, run_bind]
      cases exit with
      | panicked => rfl
      | blocked => exact absurd List.mem_cons_self hblocked
      | returned a =>
          have hrest : (.panicked : Schedule.Exit α) ∈ exits := by
            rcases List.mem_cons.mp hpanicked with h | h
            · cases h
            · exact h
          change ((exits.mapM ofExit >>= fun as => pure (a :: as) :
            Operation σ π (List α)).run e) = _
          rw [run_bind, ih hrest fun h => hblocked (List.mem_cons_of_mem _ h)]

theorem run_performAll (sv : Services σ π) (turns : Nat) (ps : List (Plan π α)) :
    (performAll sv turns ps).run e =
      ((e.schedule.driveAll sv.backend turns ps).1.mapM ofExit).run
        { e with schedule := (e.schedule.driveAll sv.backend turns ps).2 } := by
  unfold performAll
  rw [run_bind]
  rfl

theorem returns_performAll {sv : Services σ π} {turns : Nat} {ps : List (Plan π α)}
    {as : List α} {s : Schedule π}
    (h : e.schedule.driveAll sv.backend turns ps = (as.map .returned, s)) :
    (performAll sv turns ps).Returns e as { e with schedule := s } := by
  unfold Returns
  rw [run_performAll, h]
  exact returns_mapM_ofExit rfl

theorem run_performAll_panicked {sv : Services σ π} {turns : Nat} {ps : List (Plan π α)}
    {exits : List (Schedule.Exit α)} {s : Schedule π}
    (h : e.schedule.driveAll sv.backend turns ps = (exits, s))
    (hpanicked : .panicked ∈ exits) (hblocked : .blocked ∉ exits) :
    (performAll sv turns ps).run e = (.error .panicked, { e with schedule := s }) := by
  rw [run_performAll, h]
  exact run_mapM_ofExit_panicked hpanicked hblocked

end Operation
end Ripple
