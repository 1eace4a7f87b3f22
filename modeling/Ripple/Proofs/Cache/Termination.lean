import Ripple.Proofs.Cache.World

/-!
# The work of a world runs out

With every move a client comes further in its plan, or a request of its goes on
and leaves less work, as a step of a task does. So clients and tasks cannot keep
each other busy for ever: as soon as no calls come in, nothing is left to do after
some steps.
-/

namespace Ripple
namespace Cache

variable {π : Type} {b : Backend π}

/-!
# Coming further in a plan
-/

namespace ClientStage

/-- A later stage of the same plan, whatever the requests are doing. -/
inductive Later : ClientStage π → ClientStage π → Prop where
  | asks {r : Request π} {ctx : Context} {id : ProjectId}
      {next : Except Error (Resolved π) → Plan π (Reply π)} :
      Later (.requesting r next) (.following (.request ctx id next))
  | hears {r : Request π} {result : Except Error (Resolved π)}
      {next : Except Error (Resolved π) → Plan π (Reply π)} :
      Later (.following (next result)) (.requesting r next)
  | compiles {u : CompileUnit π} {next : Except String (Held (Artifact π)) → Plan π (Reply π)} :
      Later (.compiling u next) (.following (.compile u next))
  | receives {u : CompileUnit π} {result : Except String (Held (Artifact π))}
      {next : Except String (Held (Artifact π)) → Plan π (Reply π)} :
      Later (.following (next result)) (.compiling u next)
  | panics {u : CompileUnit π} {next : Except String (Held (Artifact π)) → Plan π (Reply π)} :
      Later .panicked (.compiling u next)
  | consults {key : ListingKey} {found : Option Listing}
      {next : Option Listing → Plan π (Reply π)} :
      Later (.following (next found)) (.following (.consult key next))
  | files {key : ListingKey} {f : Fingerprint} {ds : List Diagnostic}
      {held : Held (List Diagnostic)} {next : Held (List Diagnostic) → Plan π (Reply π)} :
      Later (.following (next held)) (.following (.file key f ds next))
  | returns {reply : Reply π} : Later (.returned reply) (.following (.done reply))

theorem acc_of_isOut {stage : ClientStage π} (h : stage.isOut) : Acc Later stage := by
  constructor
  intro other hlater
  cases hlater <;> cases h

theorem acc_requesting {r : Request π} {next : Except Error (Resolved π) → Plan π (Reply π)}
    (h : ∀ result, Acc Later (.following (next result))) :
    Acc Later (.requesting r next) := by
  constructor
  intro other hlater
  cases hlater with
  | hears => exact h _

theorem acc_compiling {u : CompileUnit π}
    {next : Except String (Held (Artifact π)) → Plan π (Reply π)}
    (h : ∀ result, Acc Later (.following (next result))) :
    Acc Later (.compiling u next) := by
  constructor
  intro other hlater
  cases hlater with
  | receives => exact h _
  | panics => exact acc_of_isOut rfl

theorem acc_following (plan : Plan π (Reply π)) : Acc Later (.following plan) := by
  induction plan with
  | done reply =>
      constructor
      intro other hlater
      cases hlater
      exact acc_of_isOut rfl
  | request ctx id next ih =>
      constructor
      intro other hlater
      cases hlater
      exact acc_requesting ih
  | compile u next ih =>
      constructor
      intro other hlater
      cases hlater
      exact acc_compiling ih
  | consult key next ih =>
      constructor
      intro other hlater
      cases hlater
      exact ih _
  | file key f ds next ih =>
      constructor
      intro other hlater
      cases hlater
      exact ih _

theorem wellFounded_later : WellFounded (Later (π := π)) := by
  constructor
  intro stage
  cases stage with
  | following plan => exact acc_following plan
  | requesting r next => exact acc_requesting fun result => acc_following (next result)
  | compiling u next => exact acc_compiling fun result => acc_following (next result)
  | _ => exact acc_of_isOut rfl

/-- The stage with its request forgotten. -/
def bare : ClientStage π → ClientStage π
  | .requesting _ next => .requesting default next
  | stage => stage

/-- The work that the request of a client is for itself. -/
def work : ClientStage π → Nat
  | .requesting r _ => r.work fun _ => true
  | _ => 0

end ClientStage

namespace Schedule

theorem Formed.updateTables {s : Schedule π} (h : s.Formed) {f : Tables π → Tables π}
    (hticket : (f s.tables).nextTicket = s.tables.nextTicket) : (s.updateTables f).Formed :=
  ⟨h.machine.of_tasks_eq rfl hticket, h.batches⟩

/-- A request that goes on leaves less work, for itself and the tasks together. -/
theorem work_after_lt {s : Schedule π} (h : s.Formed) {r r' : Request π} {m : Machine π}
    (hmove : r.Moves b.environment s.machine (r', m)) :
    (s.after m).work + r'.work (fun _ => true) < s.work + r.work (fun _ => true) := by
  have hwork := Request.machineWork_of_moves h.machine hmove
  have hticket := Request.nextTicket_le_of_moves hmove
  simp only [work, after, List.length_append, length_takenOff]
  omega

end Schedule

namespace ClientStage

theorem formed_of_moves {stage stage' : ClientStage π} {s s' : Schedule π} (h : s.Formed)
    (hmove : stage.Moves b s stage' s') : s'.Formed := by
  cases hmove with
  | goesOn hactive =>
      have hmove := Request.moves_of_step b.environment s.machine hactive
      exact ⟨(Request.formed_of_moves h.machine hmove).left, h.batches⟩
  | compiles => exact ⟨h.machine.of_tasks_eq rfl rfl, h.batches⟩
  | receives hanswer =>
      rcases Schedule.eq_of_answer hanswer with rfl | ⟨a, rfl⟩
      · exact h
      · exact h.updateTables rfl
  | files => exact ⟨h.machine.of_tasks_eq rfl rfl, h.batches⟩
  | _ => exact h

/-- A move leads to a later stage, or lets the request of the stage go on. -/
theorem later_of_moves {stage stage' : ClientStage π} {s s' : Schedule π} (h : s.Formed)
    (hmove : stage.Moves b s stage' s') :
    Later stage'.bare stage.bare ∨
      (stage'.bare = stage.bare ∧ s'.work + stage'.work < s.work + stage.work) := by
  -- The request of a stage may be forgotten on either side.
  have hfollowing {stage : ClientStage π} {plan : Plan π (Reply π)}
      (hlater : Later (.following plan) stage.bare) :
      Later (ClientStage.following plan).bare stage.bare := hlater
  cases hmove with
  | asks => exact .inl .asks
  | goesOn hactive =>
      exact .inr ⟨rfl, Schedule.work_after_lt h (Request.moves_of_step _ _ hactive)⟩
  | hears hresult => exact .inl (hfollowing .hears)
  | compiles => exact .inl .compiles
  | receives hanswer => exact .inl (hfollowing .receives)
  | panics hanswer => exact .inl .panics
  | consults => exact .inl (hfollowing .consults)
  | files => exact .inl (hfollowing .files)
  | returns => exact .inl .returns

end ClientStage

/-!
# The measure
-/

namespace World

variable {w w' : World π}

theorem formed_of_work (h : w.schedule.Formed) (hwork : w.Work b w') : w'.schedule.Formed := by
  cases hwork with
  | job hjob => exact h.steps (Schedule.steps_of_stepJob hjob)
  | client hclients hmove => exact ClientStage.formed_of_moves h hmove

/-- How far the clients are, and the work that is left for them as far as they are. -/
def measure (w : World π) : Multiset (ClientStage π) × Nat :=
  ((w.clients.map fun c => c.stage.bare : List (ClientStage π)),
    w.schedule.work + Number.total (w.clients.map fun c => c.stage.work))

def Less : Multiset (ClientStage π) × Nat → Multiset (ClientStage π) × Nat → Prop :=
  Prod.Lex (Relation.CutExpand ClientStage.Later) (· < ·)

theorem wellFounded_less : WellFounded (Less (π := π)) :=
  ClientStage.wellFounded_later.cutExpand.prod_lex Nat.lt_wfRel.wf

theorem less_of_work (h : w.schedule.Formed) (hwork : w.Work b w') :
    Less w'.measure w.measure := by
  cases hwork with
  | job hjob =>
      apply Prod.Lex.right
      have hlt := Schedule.work_lt_of_steps h (Schedule.steps_of_stepJob hjob)
      exact Nat.add_lt_add_right hlt _
  | @client before after c stage s hclients hmove =>
      unfold measure
      rw [hclients]
      simp only [List.map_append, List.map_cons, Number.total_append, Number.total_cons]
      rcases ClientStage.later_of_moves h hmove with hlater | ⟨hsame, hlt⟩
      · apply Prod.Lex.left
        simp only [← Multiset.coe_add, ← Multiset.cons_coe, ← Multiset.singleton_add]
        refine (Relation.cutExpand_add_left _).mpr ?_
        exact Relation.cutExpand_single_add hlater _
      · rw [hsame]
        apply Prod.Lex.right
        omega

/-- Work does not go on for ever. -/
theorem work_runs_out (h : w.schedule.Formed) :
    ¬ ∃ run : Nat → World π, run 0 = w ∧ ∀ n, (run n).Work b (run (n + 1)) := by
  rintro ⟨run, hstart, hwork⟩
  have hformed (n : Nat) : (run n).schedule.Formed := by
    induction n with
    | zero => exact hstart ▸ h
    | succ n ih => exact formed_of_work ih (hwork n)
  have : IsWellFounded _ (Less (π := π)) := ⟨wellFounded_less⟩
  rcases WellFounded.not_rel_apply_succ (r := Less) fun n => (run n).measure with ⟨n, hn⟩
  exact hn (less_of_work (hformed n) (hwork n))

end World
end Cache
end Ripple
