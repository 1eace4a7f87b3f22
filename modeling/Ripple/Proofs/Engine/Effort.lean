import Mathlib.Order.WithBot
import Ripple.Proofs.Cache.Termination
import Ripple.Proofs.Engine.Commons

/-!
# The work of the parties runs out

What a call has to do is known after its first step: so many files to write, so many
plans to carry out, or one document or workspace to be put into the session. With every
step after that there is less. So as soon as nobody makes a call any more, nothing is left
to do after some steps.
-/

namespace Ripple

open Cache

variable {σ π : Type}

namespace Engine

/-!
# Steps that are left
-/

/-- How many steps are left at most. Before the first step that cannot be told. -/
def Stage.left : Stage → WithTop Nat
  | .asked _ => ⊤
  | .writing edits _ => (2 * edits.length + 1 : Nat)
  | .folding _ edits _ => (2 * edits.length + 2 : Nat)
  | .reading _ _ _ | .loading _ _ => (2 : Nat)
  | .updating _ _ _ | .replacing _ => (1 : Nat)
  | .answered _ | .failed _ => (0 : Nat)

def Leg.left : Leg → WithTop Nat
  | .starting _ _ _ => ⊤
  | .opening _ _ _ _ => (1 : Nat)
  | .serving stage => stage.left

theorem Leg.left_congr {l l' : Leg} (h : l'.aside = l.aside) : l'.left = l.left := by
  rcases Leg.eq_or_failed h with rfl | ⟨halt, halt', rfl, rfl⟩ <;> rfl

theorem Stage.left_ended (result : Except Error Answer) :
    (Stage.ended result).left = (0 : Nat) := by
  cases result <;> rfl

variable {sv : Services σ π} {id? : Option SessionId} {s? : Option Session} {store : σ}

theorem Demand.left_effect_lt (analyzed : Bool) (s : Session) (d : Demand) :
    (d.effect sv analyzed s store).stage.left < ⊤ := by
  have hwhole (h : (d.effect sv analyzed s store).stage =
      .ended (d.outcome sv analyzed s store).answer) :
      (d.effect sv analyzed s store).stage.left < ⊤ := by
    rw [h, Stage.left_ended]
    exact WithTop.coe_lt_top 0
  cases d with
  | commit => exact WithTop.coe_lt_top _
  | refresh => exact WithTop.coe_lt_top _
  | reload path =>
      simp only [Demand.effect]
      cases s.workspace.document? (s.workspace.resolve path) <;> exact WithTop.coe_lt_top _
  | _ => exact hwhole rfl

theorem Stage.left_effect_lt (analyzed : Bool) (id : SessionId) {stage : Stage}
    (hopen : (Leg.serving stage).answer? = none) :
    (stage.effect sv analyzed id s? store).stage.left < stage.left := by
  have hless {m n : Nat} (h : m < n) : (m : WithTop Nat) < n := WithTop.coe_lt_coe.mpr h
  cases stage with
  | asked d =>
      cases s? with
      | none => exact WithTop.coe_lt_top _
      | some s => exact d.left_effect_lt analyzed s
  | writing edits report =>
      cases edits with
      | nil => cases s? <;> exact hless Nat.one_pos
      | cons edit edits =>
          simp only [Stage.effect]
          rcases sv.store.write store edit.path edit.text with ⟨_ | _, _⟩
          · exact hless (by rw [List.length_cons]; omega)
          · exact hless (by rw [List.length_cons]; omega)
  | folding edit edits report =>
      cases s? with
      | none => exact hless (Nat.succ_pos _)
      | some s => exact hless (Nat.lt_succ_self _)
  | reading path p known =>
      simp only [Stage.effect]
      cases sv.store.read store path with
      | error cause => exact hless Nat.two_pos
      | ok content =>
          simp only
          split
          · exact hless Nat.two_pos
          · exact hless Nat.one_lt_two
  | updating path p content => cases s? <;> exact hless Nat.one_pos
  | loading source root =>
      simp only [Stage.effect]
      rcases sv.store.load store source root with ⟨_ | _, _⟩
      · exact hless Nat.two_pos
      · exact hless Nat.one_lt_two
  | replacing w => cases s? <;> exact hless Nat.one_pos
  | answered answer => cases hopen
  | failed halt => cases hopen

/-- Of a leg that is not an answer yet, less is left after a step. -/
theorem Leg.left_effect_lt (analyzed : Bool) {l : Leg} (hopen : l.answer? = none)
    (hstarted : ∀ stage, l = .serving stage → id?.isSome) :
    (l.effect sv analyzed id? s? store).leg.left < l.left := by
  cases l with
  | starting source root choice =>
      simp only [Leg.effect]
      rcases sv.store.load store source root with ⟨_ | _, _⟩ <;> exact WithTop.coe_lt_top _
  | opening source root choice w =>
      simp only [Leg.effect]
      cases sv.analyzers choice <;> exact WithTop.coe_lt_coe.mpr Nat.one_pos
  | serving stage =>
      cases id? with
      | none => cases hstarted stage rfl
      | some id => exact stage.left_effect_lt analyzed id hopen

/-!
# What calls consist of
-/

/-- A leg, or the plans that are being carried out. -/
def Course.parts : Course π → Multiset (ClientStage π ⊕ Leg)
  | .leg l => {.inr l}
  | .working lanes _ => (lanes.map fun lane => .inl lane.stage.bare : List (ClientStage π ⊕ Leg))

/-- The work that the requests of the plans are for themselves. -/
def Course.work : Course π → Nat
  | .leg _ => 0
  | .working lanes _ => Number.total (lanes.map fun lane => lane.stage.work)

/-- Plans come after the leg that has them carried out. -/
def Further : ClientStage π ⊕ Leg → ClientStage π ⊕ Leg → Prop :=
  Sum.Lex ClientStage.Later fun l' l => l'.left < l.left

theorem wellFounded_further : WellFounded (Further (π := π)) :=
  Sum.lex_wf ClientStage.wellFounded_later (InvImage.wf Leg.left wellFounded_lt)

/-- The list but for one of its members. -/
theorem exists_around {α : Type _} {xs : List α} {k : Nat} {x : α} (h : xs[k]? = some x) :
    ∃ before after, xs = before ++ x :: after ∧ ∀ y, xs.set k y = before ++ y :: after := by
  have hset (y : α) : xs.set k y = xs.take k ++ y :: xs.drop (k + 1) := by
    rw [List.set_eq_take_append_cons_drop, if_pos (List.getElem?_eq_some_iff.mp h).choose]
  exact ⟨_, _, (set_of_getElem? h).symm.trans (hset x), hset⟩

theorem Course.Moves.less {b : Backend π} {c c' : Course π} {schedule schedule' : Schedule π}
    (h : schedule.Formed) (hmove : c.Moves b schedule c' schedule') :
    Relation.CutExpand Further c'.parts c.parts ∨
      c'.parts = c.parts ∧ schedule'.work + c'.work < schedule.work + c.work := by
  cases hmove with
  | @lane _ lanes k lane lane' conclude _ _ hlane hmove =>
      rcases exists_around hlane with ⟨before, after, hlanes, hset⟩
      have hparts (lane : Pursuit π _) :
          (Course.working (before ++ lane :: after) conclude).parts =
            {Sum.inl lane.stage.bare} + (Course.working (before ++ after) conclude).parts := by
        simp only [parts, List.map_append, List.map_cons, ← Multiset.coe_add, ← Multiset.cons_coe,
          ← Multiset.singleton_add]
        exact add_left_comm _ _ _
      have hwork (lane : Pursuit π _) :
          (Course.working (before ++ lane :: after) conclude).work =
            lane.stage.work + (Course.working (before ++ after) conclude).work := by
        simp only [work, List.map_append, List.map_cons, Number.total_append, Number.total_cons]
        omega
      rw [hset, hlanes, hparts lane, hparts lane', hwork lane, hwork lane']
      rcases ClientStage.later_of_moves h hmove.stage with hlater | ⟨hsame, hlt⟩
      · exact .inl (Relation.cutExpand_single_add (Sum.Lex.inl hlater) _)
      · exact .inr ⟨by rw [hsame], by omega⟩

/-- A step of a call leaves an earlier leg behind, or plans to be carried out. -/
theorem Turned.less {streams : Set (List UInt8)} {e : Engine σ π} {l : Leg}
    {next : Course π × Option SessionId × Engine σ π} (h : Turned sv streams id? e l next)
    (hopen : l.answer? = none) (hstarted : ∀ stage, l = .serving stage → id?.isSome) :
    Relation.CutExpand Further next.1.parts (Course.leg l : Course π).parts := by
  have hcomes := h.comes
  refine Relation.cutExpand_singleton fun part hpart => ?_
  cases hnext : next.1 with
  | leg l' =>
      rw [hnext] at hpart hcomes
      cases Multiset.mem_singleton.mp hpart
      refine Sum.Lex.inr ?_
      rw [← Leg.left_congr hcomes]
      exact Leg.left_effect_lt _ hopen hstarted
  | working lanes conclude =>
      rw [hnext] at hpart
      rcases List.mem_map.mp (Multiset.mem_coe.mp hpart) with ⟨lane, _, rfl⟩
      exact Sum.Lex.sep _ _

/-!
# The measure
-/

namespace Commons

variable {streams : Set (List UInt8)} {w w' : Commons σ π} {turn? : Option (Nat × Leg)}

def calls (w : Commons σ π) : List (Course π) := w.parties.flatMap Party.calls

/-- How far the calls are, and the work that is left for them as far as they are. -/
def measure (w : Commons σ π) : Multiset (ClientStage π ⊕ Leg) × Nat :=
  ((w.calls.map Course.parts).sum, w.engine.schedule.work + Number.total (w.calls.map Course.work))

def Less : Multiset (ClientStage π ⊕ Leg) × Nat → Multiset (ClientStage π ⊕ Leg) × Nat → Prop :=
  Prod.Lex (Relation.CutExpand Further) (· < ·)

theorem wellFounded_less : WellFounded (Less (π := π)) :=
  wellFounded_further.cutExpand.prod_lex Nat.lt_wfRel.wf

theorem calls_around {i k : Nat} {p : Party π} {c : Course π} (hp : w.parties[i]? = some p)
    (hc : p.calls[k]? = some c) :
    ∃ before after, w.calls = before ++ c :: after ∧ ∀ w' : Commons σ π, ∀ p' c',
      w'.parties = w.parties.set i p' → p'.calls = p.calls.set k c' →
        w'.calls = before ++ c' :: after := by
  rcases exists_around hp with ⟨ps, qs, hparties, hset⟩
  rcases exists_around hc with ⟨before, after, hcalls, hset'⟩
  refine ⟨ps.flatMap Party.calls ++ before, after ++ qs.flatMap Party.calls, ?_, ?_⟩
  · simp only [calls, hparties, List.flatMap_append, List.flatMap_cons, hcalls, List.append_assoc,
      List.cons_append]
  · intro w' p' c' hw' hp'
    simp only [calls, hw', hset, List.flatMap_append, List.flatMap_cons, hp', hset',
      List.append_assoc, List.cons_append]

theorem Sound.less_of_work (h : w.Sound sv streams)
    (hfree : CollisionFree sv.backend.environment streams)
    (hcompiles : ∀ u, ∃ a, sv.backend.compile u = .compiled a) (hcovers : w.Covers sv streams)
    (hcovers' : w'.Covers sv streams) (hwork : w.Work sv turn? w') : Less w'.measure w.measure := by
  -- One of the calls has changed, and the schedule.
  have hchanged {i k : Nat} {p p' : Party π} {c c' : Course π} (hp : w.parties[i]? = some p)
      (hc : p.calls[k]? = some c) (hw' : w'.parties = w.parties.set i p')
      (hp' : p'.calls = p.calls.set k c')
      (hless : Relation.CutExpand Further c'.parts c.parts ∨ c'.parts = c.parts ∧
        w'.engine.schedule.work + c'.work < w.engine.schedule.work + c.work) :
      Less w'.measure w.measure := by
    rcases calls_around hp hc with ⟨before, after, hcalls, hset⟩
    unfold measure
    rw [hcalls, hset w' p' c' hw' hp']
    simp only [List.map_append, List.map_cons, List.sum_append, List.sum_cons, Number.total_append,
      Number.total_cons]
    rcases hless with hless | ⟨hsame, hlt⟩
    · apply Prod.Lex.left
      refine (Relation.cutExpand_add_left _).mpr ?_
      rw [add_comm c'.parts, add_comm c.parts]
      exact (Relation.cutExpand_add_left _).mpr hless
    · rw [hsame]
      apply Prod.Lex.right
      omega
  cases hwork with
  | @turn i k p l hp hl hopen =>
      refine hchanged hp hl rfl rfl (.inl ?_)
      refine (h.turned_turned hfree hcompiles hcovers hcovers').less hopen ?_
      rintro stage rfl
      refine Option.isSome_iff_ne_none.mpr fun hnone => ?_
      have hanswer := h.begun i p hp hnone stage (List.mem_of_getElem? hl)
      rw [hopen] at hanswer
      cases hanswer
  | move hp hc hmove => exact hchanged hp hc rfl rfl (hmove.less h.schedule.formed)
  | job hjob =>
      apply Prod.Lex.right
      have hlt := Schedule.work_lt_of_steps h.schedule.formed (Schedule.steps_of_stepJob hjob)
      exact Nat.add_lt_add_right hlt _

/-- Work does not go on for ever. -/
theorem Sound.work_runs_out (h : w.Sound sv streams)
    (hfree : CollisionFree sv.backend.environment streams)
    (hcompiles : ∀ u, ∃ a, sv.backend.compile u = .compiled a) (hcovers : w.Covers sv streams) :
    ¬ ∃ run : Nat → Commons σ π, run 0 = w ∧
      ∀ n, (run (n + 1)).Covers sv streams ∧ ∃ turn?, (run n).Work sv turn? (run (n + 1)) := by
  rintro ⟨run, hstart, hgoes⟩
  have hsound (n : Nat) : (run n).Sound sv streams ∧ (run n).Covers sv streams := by
    induction n with
    | zero => exact hstart ▸ ⟨h, hcovers⟩
    | succ n ih =>
        rcases hgoes n with ⟨hcovers', turn?, hwork⟩
        exact ⟨ih.left.step hfree hcompiles ih.right hcovers' (.work hwork), hcovers'⟩
  have : IsWellFounded _ (Less (π := π)) := ⟨wellFounded_less⟩
  rcases WellFounded.not_rel_apply_succ (r := Less) fun n => (run n).measure with ⟨n, hn⟩
  rcases hgoes n with ⟨hcovers', turn?, hwork⟩
  exact hn ((hsound n).left.less_of_work hfree hcompiles (hsound n).right hcovers' hwork)

end Commons
end Engine
end Ripple
