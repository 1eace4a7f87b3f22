import Ripple.Proofs.Engine.Events
import Ripple.Proofs.Engine.Representation
import Ripple.Proofs.Engine.Singly

/-!
# Operations that fail

An operation that fails with an error has come to nothing: it has either not started on
what it was to change, or it has been refused before that. Sessions are as they were but for
the time of their last use, and nothing has been written.
-/

namespace Ripple

open Cache

variable {σ π α β : Type}

/-!
# Where an operation fails
-/

namespace Operation

variable {e e₁ e' : Engine σ π} {op : Operation σ π α} {error : Error}

/-- An operation fails in its first part, or in what follows on the answer to that. -/
theorem ends_bind_error {k : α → Operation σ π β} (h : (op >>= k).Ends e (.error error) e') :
    op.Ends e (.error error) e' ∨
      ∃ a e₁, op.Returns e a e₁ ∧ (k a).Ends e₁ (.error error) e' := by
  unfold Ends at h
  rw [run_bind] at h
  rcases hrun : op.run e with ⟨halt | a, e₁⟩
  · rw [hrun] at h
    cases h
    exact .inl hrun
  · rw [hrun] at h
    exact .inr ⟨a, e₁, hrun, h⟩

theorem Returns.not_ends_error {a : α} (h : op.Returns e a e₁) :
    ¬ op.Ends e (.error error) e' := by
  intro hends
  cases h.symm.trans hends

/-- Where the first part returns it is the rest that fails. -/
theorem Returns.ends_of_bind {k : α → Operation σ π β} {a : α} (h : op.Returns e a e₁)
    (hends : (op >>= k).Ends e (.error error) e') : (k a).Ends e₁ (.error error) e' :=
  (h.run_bind k).symm.trans hends

/-- An answer that is worked on has been there before. -/
theorem ends_of_map_error {f : α → β}
    (h : (do pure (f (← op)) : Operation σ π β).Ends e (.error error) e') :
    op.Ends e (.error error) e' := by
  rcases ends_bind_error h with hop | ⟨a, e₁, _, hpure⟩
  · exact hop
  · cases hpure

theorem not_ends_mapM {f : β → Operation σ π α}
    (h : ∀ b e e', ¬ (f b).Ends e (.error error) e') (bs : List β) :
    ¬ (bs.mapM f).Ends e (.error error) e' := by
  induction bs generalizing e with
  | nil =>
      intro hends
      cases hends
  | cons b bs ih =>
      intro hends
      rw [List.mapM_cons] at hends
      rcases ends_bind_error hends with hfirst | ⟨a, e₁, _, hrest⟩
      · exact h b e e' hfirst
      · exact ih (ends_of_map_error hrest)

/-- What never halts does not fail. -/
theorem Leaves.not_ends_error {P : Engine σ π → Prop} {Q : α → Engine σ π → Prop}
    (h : op.Leaves P Q fun _ => False) (he : P e) : ¬ op.Ends e (.error error) e' := by
  intro hends
  have hrun := h e he
  rw [show op.run e = _ from hends] at hrun
  exact hrun

theorem ends_fail_iff {error' : Error} :
    (fail error : Operation σ π α).Ends e (.error error') e' ↔ error' = error ∧ e' = e := by
  constructor
  · intro h
    cases h
    exact ⟨rfl, rfl⟩
  · intro h
    rcases h with ⟨rfl, rfl⟩
    exact ends_fail _ _

/-- Carrying a plan out changes the schedule only, and never fails. -/
theorem run_perform (sv : Services σ π) (p : Plan π α) (e : Engine σ π) :
    (perform sv p).run e = (ofExit (e.schedule.drive sv.backend p).1).run
      { e with schedule := (e.schedule.drive sv.backend p).2 } := by
  unfold perform
  rw [run_bind]
  rfl

theorem not_ends_perform (sv : Services σ π) (p : Plan π α) :
    ¬ (perform sv p).Ends e (.error error) e' := by
  intro h
  unfold Ends at h
  rw [run_perform] at h
  cases hexit : (e.schedule.drive sv.backend p).1 <;> rw [hexit] at h <;> cases h

theorem schedule_of_returns_perform {sv : Services σ π} {p : Plan π α} {a : α}
    (h : (perform sv p).Returns e a e') : ∃ schedule, e' = { e with schedule := schedule } := by
  unfold Returns at h
  rw [run_perform] at h
  cases hexit : (e.schedule.drive sv.backend p).1 with
  | returned b =>
      rw [hexit] at h
      cases h
      exact ⟨_, rfl⟩
  | blocked =>
      rw [hexit] at h
      cases h
  | panicked =>
      rw [hexit] at h
      cases h

end Operation

namespace Store

/-- Loading does not show in what is read. -/
theorem Provided.read_load {st : Store σ} (h : st.Provided) (m : σ) (source : Source)
    (root path : Path) : st.read (st.load m source root).2 path = st.read m path := by
  cases h with
  | memory =>
      show (m.load source root).2.read path = m.read path
      unfold Memory.load
      split <;> rfl
  | disk => rfl

end Store

namespace Engine

open Operation (Admitted)

variable {sv : Services σ π} {id : SessionId} {e e₁ e' : Engine σ π} {s : Session}
  {error : Error}

/-!
# What is left untouched
-/

/-- Every session is kept under its own id. -/
abbrev Keyed (e : Engine σ π) : Prop :=
  e.Holds fun _ _ => True

/-- So it is, whatever has been done to an engine. -/
theorem keyed_play (sv : Services σ π) (config : Config) (store : σ) (gateOpen : Bool)
    (moves : List Move) : (Engine.play sv (.new config store gateOpen) moves).Keyed :=
  fun id s hs => ⟨((kept_new config store gateOpen).play moves id s hs).left, trivial⟩

/-- There are the same sessions with all that they own, and nothing is written: the store has
been asked for a workspace at most. -/
structure Untouched (sv : Services σ π) (e e' : Engine σ π) : Prop where
  ids : e'.sessions.keys = e.sessions.keys
  sessions : ∀ id s, e.sessions.get? id = some s →
    ∃ now, e'.sessions.get? id = some { s with lastAccess := now }
  store : e'.store = e.store ∨
    ∃ source root, e'.store = (sv.store.load e.store source root).2

theorem Untouched.refl (sv : Services σ π) (e : Engine σ π) : Untouched sv e e :=
  ⟨rfl, fun _ s hs => ⟨s.lastAccess, hs⟩, .inl rfl⟩

theorem Untouched.use (h : Untouched sv e e₁) (hsession : e₁.sessions.get? id = some s)
    (hid : s.id = id) (now : Nat) :
    Untouched sv e (e₁.setSession { s with lastAccess := now }) := by
  subst hid
  refine ⟨(Table.keys_insert_of_get? hsession _).trans h.ids, fun id' s' hs' => ?_, h.store⟩
  rcases h.sessions id' s' hs' with ⟨now', hnow'⟩
  by_cases heq : id' = s.id
  · subst heq
    cases hsession.symm.trans hnow'
    exact ⟨now, Table.get?_insert_self _ _ _⟩
  · exact ⟨now', (get?_setSession_of_ne (t := { s with lastAccess := now }) heq).trans hnow'⟩

theorem Untouched.load (h : Untouched sv e e₁) (source : Source) (root : Path) :
    Untouched sv e { e₁ with store := (sv.store.load e.store source root).2 } :=
  ⟨h.ids, h.sessions, .inr ⟨source, root, rfl⟩⟩

theorem Untouched.withSchedule (h : Untouched sv e e₁) (schedule : Schedule π) :
    Untouched sv e { e₁ with schedule := schedule } :=
  ⟨h.ids, h.sessions, h.store⟩

/-- All files read as before. -/
theorem Untouched.read (h : Untouched sv e e') (hstore : sv.store.Provided) (path : Path) :
    sv.store.read e'.store path = sv.store.read e.store path := by
  rcases h.store with hsame | ⟨source, root, hloaded⟩
  · rw [hsame]
  · rw [hloaded, hstore.read_load]

/-!
# Starts
-/

theorem untouched_start {source : Source} {root : Path} {choice : AnalyzerChoice}
    (h : (start sv source root choice).Ends e (.error error) e') : Untouched sv e e' := by
  have hload := Operation.ends_load sv source root e
  have hloaded := (Untouched.refl sv e).load source root
  unfold start at h
  rcases Operation.ends_bind_error h with hfails | ⟨w, e₁, hreturns, hrest⟩
  · have he' : e' = { e with store := (sv.store.load e.store source root).2 } :=
      congrArg Prod.snd (Eq.trans hfails.symm hload)
    exact he' ▸ hloaded
  · have he₁ : e₁ = { e with store := (sv.store.load e.store source root).2 } :=
      congrArg Prod.snd (Eq.trans hreturns.symm hload)
    cases hchoice : sv.analyzers choice with
    | error cause =>
        rw [hchoice] at hrest
        rcases Operation.ends_fail_iff.mp hrest with ⟨_, rfl⟩
        exact he₁ ▸ hloaded
    | ok analyzers =>
        rw [hchoice] at hrest
        cases hrest

/-!
# Sessions that are loaded or read again
-/

section

variable (hsession : e.sessions.get? id = some s) (hid : s.id = id)
include hsession hid

theorem untouched_refresh (h : (refresh sv id).Ends e (.error error) e') : Untouched sv e e' := by
  rcases hload : sv.store.load e.store s.source s.root with ⟨cause | w, store⟩
  · have hstore : store = (sv.store.load e.store s.source s.root).2 := by rw [hload]
    cases h.symm.trans (ends_refresh_of_error hsession hload)
    exact hstore ▸ ((Untouched.refl sv e).use hsession hid e.clock).load s.source s.root
  · exact ((returns_refresh hsession hid hload).not_ends_error h).elim

theorem untouched_reload {path : Path} (h : (reload sv id path).Ends e (.error error) e') :
    Untouched sv e e' := by
  cases hfound : s.workspace.document? (s.workspace.resolve path) with
  | none =>
      cases h.symm.trans (ends_reload_of_missing hsession hfound)
      exact .refl sv e
  | some found =>
      cases hread : sv.store.read e.store (s.workspace.resolve path) with
      | error cause =>
          cases h.symm.trans (ends_reload_of_unreadable hsession hfound hread)
          exact .refl sv e
      | ok content =>
          by_cases hsame : content = found.2.content
          · subst hsame
            exact ((returns_reload_of_same hsession hfound hread).not_ends_error h).elim
          · exact ((returns_reload hsession hid hfound hread hsame).not_ends_error h).elim

/-!
# Diagnostics and invalidation
-/

theorem untouched_diagnostics {project? : Option ProjectId} {analyze? : Option Bool}
    (h : (diagnostics sv id project? analyze?).Ends e (.error error) e') : Untouched sv e e' := by
  have hused := (Untouched.refl sv e).use hsession hid e.clock
  unfold diagnostics at h
  have hrest := (returns_use hsession).ends_of_bind h
  have hrest := (Operation.returns_get_iff.mpr ⟨rfl, rfl⟩).ends_of_bind hrest
  cases project? with
  | some p =>
      rcases Operation.ends_bind_error hrest with hfails | ⟨result, e₁, hreturns, hrest⟩
      · exact (Operation.not_ends_perform _ _ hfails).elim
      · rcases Operation.schedule_of_returns_perform hreturns with ⟨schedule, rfl⟩
        cases result with
        | error cause =>
            cases hrest
            exact hused.withSchedule schedule
        | ok held => cases hrest
  | none =>
      -- Each of the projects has its own error in the report.
      refine (Operation.not_ends_mapM (fun p e₁ e₂ hfails => ?_) _
        (Operation.ends_of_map_error hrest)).elim
      exact Operation.not_ends_perform _ _ (Operation.ends_of_map_error hfails)

theorem untouched_invalidateProject {p : ProjectId}
    (h : (invalidateProject id p).Ends e (.error error) e') : Untouched sv e e' := by
  unfold invalidateProject at h
  have hrest := (returns_use hsession).ends_of_bind h
  split at hrest
  · cases hrest
    exact (Untouched.refl sv e).use hsession hid e.clock
  · cases hrest

/-!
# Edits
-/

theorem untouched_applyEdit {edit : DocumentEdit}
    (h : ((Demand.applyEdit edit).operation sv id).Ends e (.error error) e') :
    Untouched sv e e' := by
  have hhas : Has id e s := ⟨⟨s.lastAccess, hsession⟩, hid⟩
  have hedit : s.stageEdit s.workspace edit = .error error :=
    hhas.stageEdit_eq (congrArg Prod.fst h)
  cases h.symm.trans (run_refused sv hsession hedit)
  have hused := (Untouched.refl sv e).use hsession hid e.clock
  exact hused.use (get?_setSession (t := { s with lastAccess := e.clock }) hid) hid e.clock

/-- A batch fails only if it is empty: what is wrong with its edits is in their results. -/
theorem untouched_applyEdits {edits : List DocumentEdit}
    (h : ((Demand.applyEdits edits).operation sv id).Ends e (.error error) e') :
    Untouched sv e e' := by
  by_cases hedits : edits = []
  · subst hedits
    cases h
    exact .refl sv e
  · have hhas : Has id e s := ⟨⟨s.lastAccess, hsession⟩, hid⟩
    rcases hhas.applyEdits sv hedits with ⟨answer, e₁, hrun, htells, _⟩
    cases h.symm.trans hrun
    rcases htells.left with ⟨_, hanswer⟩ | hanswer | hanswer <;> cases hanswer

end

/-!
# Commits

What cannot be written is reported, so a commit does not fail where there is a session.
-/

/-- The engine has a session of the id. -/
def Registers (id : SessionId) (e : Engine σ π) : Prop :=
  ∃ s, e.sessions.get? id = some s ∧ s.id = id

theorem leaves_find_registered (id : SessionId) :
    (Operation.find id : Operation σ π Session).Leaves (Registers id)
      (fun s e => Registers id e ∧ s.id = id) fun _ => False := by
  refine Operation.leaves_find ?_ ?_
  · intro e s he hs
    rcases he with ⟨t, ht, hid⟩
    cases ht.symm.trans hs
    exact ⟨⟨s, hs, hid⟩, hid⟩
  · intro e he hnone
    rcases he with ⟨t, ht, _⟩
    cases ht.symm.trans hnone

theorem leaves_use_registered (id : SessionId) :
    (Operation.use id : Operation σ π Session).Leaves (Registers id)
      (fun _ => Registers id) fun _ => False := by
  refine Operation.leaves_use ?_ ?_
  · intro e s he hs
    rcases he with ⟨t, ht, hid⟩
    cases ht.symm.trans hs
    exact ⟨_, get?_setSession (t := { s with lastAccess := e.clock }) hid, hid⟩
  · intro e he hnone
    rcases he with ⟨t, ht, _⟩
    cases ht.symm.trans hnone

theorem leaves_setSession_registered {t : Session} :
    (Operation.setSession t : Operation σ π Unit).Leaves
      (fun e => Registers id e ∧ t.id = id) (fun _ => Registers id) fun _ => False :=
  Operation.leaves_modify fun _ he => ⟨t, get?_setSession he.right, he.right⟩

theorem leaves_commitEdit_registered (sv : Services σ π) (id : SessionId) (report : CommitReport)
    (edit : PendingEdit) :
    (commitEdit sv id report edit).Leaves (Registers id) (fun _ => Registers id)
      fun _ => False := by
  unfold commitEdit
  refine (Operation.leaves_writeText (Q := fun _ => Registers id) fun _ he => he).bind
    fun result => ?_
  cases result with
  | error cause => exact Operation.leaves_pure fun _ he => he
  | ok _ =>
      refine (leaves_find_registered id).bind fun s => ?_
      refine Operation.Leaves.bind (Q := fun _ => Registers id) ?_ fun _ => ?_
      · refine leaves_setSession_registered.imp ?_ (fun _ _ he => he) fun _ he => he
        exact fun e he => ⟨he.left, (s.alike_settle edit).id.trans he.right⟩
      · refine (Operation.leaves_modify (Q := fun _ => Registers id) fun _ he => he).bind
          fun _ => ?_
        exact Operation.leaves_pure fun _ he => he

theorem leaves_commit_registered (sv : Services σ π) (id : SessionId) :
    (commit sv id).Leaves (Registers id) (fun _ => Registers id) fun _ => False := by
  have hedits (edits : List PendingEdit) (report : CommitReport) :
      (edits.foldlM (commitEdit sv id) report).Leaves (Registers id) (fun _ => Registers id)
        fun _ => False := by
    induction edits generalizing report with
    | nil => exact Operation.leaves_pure fun _ he => he
    | cons edit rest ih =>
        rw [List.foldlM_cons]
        exact (leaves_commitEdit_registered sv id report edit).bind ih
  unfold commit
  refine (leaves_use_registered id).bind fun s => ?_
  refine (hedits _ _).bind fun report => ?_
  refine (leaves_find_registered id).bind fun t => ?_
  split
  · exact (leaves_setSession_registered (t := ({ t with phase := .committed } : Session))).bind
      fun _ => Operation.leaves_pure fun _ he => he
  · exact Operation.leaves_pure fun _ he => he.left

/-!
# All operations
-/

/-- Where what follows on the use of a session returns, nothing fails. -/
theorem false_of_use (hsession : e.sessions.get? id = some s) {k : Session → Operation σ π α}
    {f : α → β} {a : α}
    (h : (do pure (f (← Operation.use id >>= k)) : Operation σ π β).Ends e (.error error) e')
    (hk : (k { s with lastAccess := e.clock }).Returns
      (e.setSession { s with lastAccess := e.clock }) a e₁) : False :=
  hk.not_ends_error ((returns_use hsession).ends_of_bind (Operation.ends_of_map_error h))

theorem untouched_demand (hkeyed : e.Keyed) {d : Demand}
    (h : (d.operation sv id).Ends e (.error error) e') : Untouched sv e e' := by
  cases hs : e.sessions.get? id with
  | none =>
      cases h.symm.trans (run_demand_missing hs d)
      exact .refl sv e
  | some s =>
      have hid : s.id = id := (hkeyed id s hs).left
      cases d with
      | applyEdit edit => exact untouched_applyEdit hs hid h
      | applyEdits edits => exact untouched_applyEdits hs hid h
      | diagnostics project? analyze? =>
          exact untouched_diagnostics hs hid (Operation.ends_of_map_error h)
      | invalidateProject p =>
          exact untouched_invalidateProject hs hid (Operation.ends_of_map_error h)
      | refresh =>
          exact untouched_refresh hs hid
            (Operation.ends_of_map_error (f := fun _ => Answer.done) h)
      | reload path => exact untouched_reload hs hid (Operation.ends_of_map_error h)
      | commit =>
          have hcommit : (commit sv id).Ends e (.error error) e' := Operation.ends_of_map_error h
          exact ((leaves_commit_registered sv id).not_ends_error ⟨s, hs, hid⟩ hcommit).elim
      | finish =>
          have hfinish : (Engine.finish id : Operation σ π Unit).Returns e () (e.remove s) :=
            Operation.returns_bind_iff.mpr
              ⟨s, e, Operation.returns_find_iff.mpr ⟨hs, rfl⟩, rfl⟩
          exact (hfinish.not_ends_error
            (Operation.ends_of_map_error (f := fun _ => Answer.done) h)).elim
      | _ => exact (false_of_use hs h rfl).elim

/-- An event fails as the refresh or the reload that it comes to. -/
theorem untouched_applyEvent (hkeyed : e.Keyed) {event : FileEvent}
    (h : (applyEvent sv id event).Ends e (.error error) e') : Untouched sv e e' := by
  unfold applyEvent at h
  simp only at h
  split at h
  · cases h
  · cases hs : e.sessions.get? id with
    | none =>
        cases h.symm.trans (Operation.run_find_bind_missing hs _)
        exact .refl sv e
    | some s =>
        have hid : s.id = id := (hkeyed id s hs).left
        have hrenew (hrefresh : (do
            refresh sv id
            pure EventOutcome.refreshed).Ends e (.error error) e') : Untouched sv e e' :=
          untouched_refresh hs hid
            (Operation.ends_of_map_error (f := fun _ => EventOutcome.refreshed) hrefresh)
        have hrest := (Operation.returns_find_iff.mpr ⟨hs, rfl⟩).ends_of_bind h
        split at hrest
        · cases hrest
        · split at hrest
          · exact hrenew hrest
          · cases event with
            | removed path =>
                simp only at hrest
                split at hrest
                · exact hrenew hrest
                · cases hrest
            | _ =>
                simp only at hrest
                split at hrest
                · exact untouched_reload hs hid (Operation.ends_of_map_error hrest)
                · split at hrest
                  · exact hrenew hrest
                  · cases hrest

/-- What can be asked of an engine and may be refused. -/
inductive Call where
  | start (source : Source) (root : Path) (choice : AnalyzerChoice)
  | ask (id : SessionId) (d : Demand)
  | observe (id : SessionId) (event : FileEvent)

def Call.operation (sv : Services σ π) : Call → Operation σ π Unit
  | .start source root choice => do
      let _ ← Engine.start sv source root choice
      pure ()
  | .ask id d => do
      let _ ← d.operation sv id
      pure ()
  | .observe id event => do
      let _ ← applyEvent sv id event
      pure ()

theorem untouched_call (hkeyed : e.Keyed) {call : Call}
    (h : (call.operation sv).Ends e (.error error) e') : Untouched sv e e' := by
  cases call with
  | start source root choice =>
      exact untouched_start (Operation.ends_of_map_error (f := fun _ => ()) h)
  | ask id d =>
      exact untouched_demand hkeyed (Operation.ends_of_map_error (f := fun _ => ()) h)
  | observe id event =>
      exact untouched_applyEvent hkeyed (Operation.ends_of_map_error (f := fun _ => ()) h)

/-- Whatever fails with an error leaves all sessions and all files as they were. -/
theorem failure_untouched (hkeyed : e.Keyed) (call : Call)
    (h : (call.operation sv).Ends e (.error error) e') :
    Untouched sv e e' ∧ (sv.store.Provided →
      ∀ path, sv.store.read e'.store path = sv.store.read e.store path) :=
  ⟨untouched_call hkeyed h, (untouched_call hkeyed h).read⟩

/-- An engine in which texts are pending, and whose workspace cannot be loaded any more. -/
def unloadable : Engine Memory (List Document) :=
  { linkedEngine with store := { Memory.ofWorkspace linked with isBroken := true } }

/-- For one, the texts outlive a refresh that fails. -/
theorem failure_untouched_linked : ∃ e' s,
    ((Call.ask ⟨"s"⟩ .refresh).operation remembering).Ends unloadable
      (.error (.loadFailed ⟨"/"⟩ "No project model at /")) e' ∧
    e'.sessions.keys = [⟨"s"⟩] ∧ e'.sessions.get? ⟨"s"⟩ = some s ∧
    s.pendingEdits = [⟨⟨"a"⟩, ⟨"/s"⟩, "xold"⟩, ⟨⟨"b"⟩, ⟨"/t"⟩, "yold"⟩] ∧ s.phase = .staged := by
  have hkeyed : unloadable.Keyed := by
    have hnew : (Engine.new .default unloadable.store true : Engine Memory (List Document)).Keyed :=
      keyed_play remembering _ _ _ []
    exact Holds.setSession (s := linkedStaged) hnew trivial
  have hends : ((Call.ask ⟨"s"⟩ .refresh).operation remembering).Ends unloadable
      (.error (.loadFailed ⟨"/"⟩ "No project model at /"))
      (((Call.ask ⟨"s"⟩ .refresh).operation remembering).run unloadable).2 :=
    Prod.ext (by decide +kernel) rfl
  have hsession : unloadable.sessions.get? ⟨"s"⟩ = some linkedStaged := rfl
  have hpending : linkedStaged.pendingEdits =
      [⟨⟨"a"⟩, ⟨"/s"⟩, "xold"⟩, ⟨⟨"b"⟩, ⟨"/t"⟩, "yold"⟩] := by decide +kernel
  have huntouched := (failure_untouched hkeyed _ hends).left
  rcases huntouched.sessions _ _ hsession with ⟨now, hnow⟩
  exact ⟨_, _, hends, huntouched.ids, hnow, hpending, rfl⟩

end Engine
end Ripple
