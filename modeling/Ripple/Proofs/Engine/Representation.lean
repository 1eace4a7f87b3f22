import Ripple.Proofs.Engine.Demands
import Ripple.Proofs.Engine.Partial

/-!
# What sessions are like between operations

A session is staged exactly as long as it has pending texts. Each of these is kept
under its own path, and counted to a project of the workspace that lists a document
there. The graph is the one of the workspace. No operation changes any of this,
whatever becomes of it, though a commit leaves the phase behind while it is at work.
-/

namespace Ripple

open Cache

/-!
# Sessions
-/

theorem exists_mem_putFirstIn {p : Project} {ps : List Project} (hp : p ∈ ps)
    (texts : Path → Option String) (seen : List Path) :
    ∃ p' ∈ putFirstIn texts seen ps, p'.id = p.id ∧
      p'.documents.map Document.path = p.documents.map Document.path := by
  induction ps generalizing seen with
  | nil => cases hp
  | cons first ps ih =>
      rcases List.mem_cons.mp hp with rfl | hp
      · exact ⟨_, List.mem_cons_self, rfl, map_path_putFirst seen p.documents⟩
      · rcases ih hp (first.documents.map Document.path ++ seen) with ⟨p', hp', hsame⟩
        exact ⟨p', List.mem_cons_of_mem _ hp', hsame⟩

theorem Workspace.project?_isSome_of_mem {w : Workspace} {p : Project} (hp : p ∈ w.projects) :
    (w.project? p.id).isSome :=
  List.find?_isSome.mpr ⟨p, hp, decide_eq_true rfl⟩

theorem PathMap.values_insert_ne_nil {ν : Type} (m : PathMap ν) (p : Path) (v : ν) :
    (m.insert p v).values ≠ [] := by
  have hself : p.same p := Path.same_iff.mpr rfl
  have hget : (m.insert p v).get? p = some v := by
    rw [PathMap.get?_insert, if_pos hself]
  rcases PathMap.mem_of_get? hget with ⟨row, hrow, _⟩
  intro hnil
  have hmem : row.2 ∈ (m.insert p v).values := List.mem_map_of_mem hrow
  rw [hnil] at hmem
  cases hmem

namespace Session

/-- A session as it is to be between operations. -/
structure Represented (s : Session) : Prop where
  staged : s.phase = .staged ↔ s.pendingEdits ≠ []
  stored : ∀ row ∈ s.pending.rows,
    row.1.same row.2.path ∧ s.pending.get? row.2.path = some row.2
  known : ∀ x ∈ s.pendingEdits, (s.workspace.project? x.project).isSome
  listed : ∀ x ∈ s.pendingEdits, ∃ p ∈ s.workspace.projects, p.id = x.project ∧
    ∃ d ∈ p.documents, d.path = x.path
  graph : s.graph = .build s.workspace

/-- The same but for the phase, and with the texts in the order of their paths. -/
structure Recorded (s : Session) : Prop extends Formed s where
  listed : ∀ x ∈ s.pendingEdits, ∃ p ∈ s.workspace.projects, p.id = x.project ∧
    ∃ d ∈ p.documents, d.path = x.path

structure Kept (s : Session) : Prop extends Recorded s where
  staged : s.phase = .staged ↔ s.pendingEdits ≠ []

variable {s s' : Session}

theorem Kept.represented (h : s.Kept) : s.Represented where
  staged := h.staged
  stored row hrow := ⟨h.keys row hrow, h.toFormed.get?_pending hrow⟩
  known x hx := by
    rcases h.listed x hx with ⟨p, hp, hid, _⟩
    exact hid ▸ Workspace.project?_isSome_of_mem hp
  listed := h.listed
  graph := h.graph

theorem Recorded.step (h : s.Recorded) (hstep : s.Step s') : s'.Recorded := by
  refine ⟨h.toFormed.step hstep, ?_⟩
  cases hstep with
  | stage hstage =>
      rcases stageEdit_eq_ok_iff.mp hstage with ⟨p, d, text, hfound, _, _, rfl⟩
      rcases Workspace.mem_documents_of_document? hfound with ⟨hp, hd, _⟩
      intro x hx
      rcases List.mem_map.mp hx with ⟨row, hrow, rfl⟩
      rcases PathMap.mem_placeRow hrow with ⟨_, hvalue⟩ | hrow
      · rw [hvalue]
        exact ⟨p, hp, rfl, d, hd, rfl⟩
      · exact h.listed _ (List.mem_map_of_mem hrow)
  | @clear path text s' hclear =>
      unfold clearPendingIf at hclear
      split at hclear
      · cases hclear
        intro x hx
        rcases List.mem_map.mp hx with ⟨row, hrow, rfl⟩
        exact h.listed _ (List.mem_map_of_mem (List.mem_filter.mp hrow).left)
      · cases hclear
  | @update path text id s' hupdate =>
      have hs' := s.updateDocument_getD path text
      rw [hupdate] at hs'
      change s' = _ at hs'
      rw [hs', ← Workspace.putTexts_textAt]
      intro x hx
      rcases h.listed x hx with ⟨p, hp, hid, d, hd, hpath⟩
      rcases exists_mem_putFirstIn hp _ [] with ⟨p', hp', hid', hpaths⟩
      have hmem : d.path ∈ p'.documents.map Document.path := by
        rw [hpaths]
        exact List.mem_map_of_mem hd
      rcases List.mem_map.mp hmem with ⟨d', hd', hpath'⟩
      exact ⟨p', hp', hid'.trans hid, d', hd', hpath'.trans hpath⟩
  | discard => exact fun _ hx => (List.not_mem_nil hx).elim
  | reload w => exact fun _ hx => (List.not_mem_nil hx).elim
  | use now => exact h.listed
  | enter phase => exact h.listed
  | pause isPaused => exact h.listed
  | prewarm batch => exact h.listed

theorem kept_start (id : SessionId) (root : Path) (source : Source) (analyzers : AnalyzerSet)
    (w : Workspace) (now : Nat) : (start id root source analyzers w now).Kept where
  toFormed := formed_start id root source analyzers w now
  listed := fun _ hx => (List.not_mem_nil hx).elim
  staged := ⟨nofun, fun h => (h rfl).elim⟩

theorem Kept.use (h : s.Kept) (now : Nat) : ({ s with lastAccess := now } : Session).Kept :=
  ⟨h.toRecorded.step (.use now), h.staged⟩

theorem Kept.pause (h : s.Kept) (isPaused : Bool) :
    ({ s with isPaused := isPaused } : Session).Kept :=
  ⟨h.toRecorded.step (.pause isPaused), h.staged⟩

theorem Kept.prewarm (h : s.Kept) (batch : Option Nat) :
    ({ s with prewarm := batch } : Session).Kept :=
  ⟨h.toRecorded.step (.prewarm batch), h.staged⟩

theorem Kept.update (h : s.Kept) (path : Path) (text : String) :
    (((s.updateDocument path text).map Prod.snd).getD s).Kept := by
  constructor
  · cases hupdated : s.updateDocument path text with
    | none => exact h.toRecorded
    | some found => exact h.toRecorded.step (.update hupdated)
  · rw [updateDocument_getD]
    exact h.staged

/-- Where nothing is pending, any phase but one is right. -/
theorem Recorded.kept_of_discarded (h : s.Recorded) {phase : Phase} (hphase : phase ≠ .staged) :
    ({ s.discardPending with phase := phase } : Session).Kept :=
  ⟨(h.step .discard).step (.enter phase), fun heq => (hphase heq).elim, fun h => (h rfl).elim⟩

theorem Recorded.kept_of_reloaded (h : s.Recorded) (w : Workspace) :
    ({ (s.discardPending.replaceWorkspace w) with phase := .clean, prewarm := none } :
      Session).Kept :=
  ⟨((h.step (.reload w)).step (.enter .clean)).step (.prewarm none), nofun,
    fun h => (h rfl).elim⟩

theorem Kept.stage (h : s.Kept) {e : DocumentEdit} {p : ProjectId}
    (hstage : s.stageEdit s.workspace e = .ok (p, s')) :
    s'.Kept ∧ s'.id = s.id ∧ s'.workspace = s.workspace := by
  have hrecorded := h.toRecorded.step (.stage hstage)
  rcases stageEdit_eq_ok_iff.mp hstage with ⟨p, d, text, _, _, _, rfl⟩
  exact ⟨⟨hrecorded, fun _ => PathMap.values_insert_ne_nil _ _ _, fun _ => rfl⟩, rfl, rfl⟩

end Session

namespace Engine

variable {σ π : Type} {sv : Services σ π} {e e' : Engine σ π}

theorem kept_stageAll (edits : List DocumentEdit) {s : Session} {w : Workspace}
    (hw : s.workspace = w) (h : s.Kept) :
    (stageAll w edits s).2.Kept ∧ (stageAll w edits s).2.id = s.id := by
  induction edits generalizing s with
  | nil => exact ⟨h, rfl⟩
  | cons edit rest ih =>
      unfold stageAll
      cases hedit : s.stageEdit w edit with
      | error error => exact ih hw h
      | ok staged =>
          rcases staged with ⟨p, s'⟩
          rcases h.stage (hw ▸ hedit) with ⟨hkept, hid, hworkspace⟩
          rcases ih (hworkspace.trans hw) hkept with ⟨hlast, hid'⟩
          exact ⟨hlast, hid'.trans hid⟩

/-!
# Engines
-/

/-- Every session is kept under its own id, and something holds of it. -/
def Holds (K : SessionId → Session → Prop) (e : Engine σ π) : Prop :=
  ∀ id s, e.sessions.get? id = some s → s.id = id ∧ K id s

/-- All sessions are as they are to be between operations. -/
abbrev Kept (e : Engine σ π) : Prop :=
  e.Holds fun _ => Session.Kept

variable {K : SessionId → Session → Prop}

theorem Holds.setSession (h : e.Holds K) {s : Session} (hs : K s.id s) :
    (e.setSession s).Holds K := by
  intro id s' hs'
  change (e.sessions.insert s.id s).get? id = some s' at hs'
  rw [Table.get?_insert] at hs'
  split at hs'
  · rename_i hid
    cases hs'
    exact ⟨hid.symm, hid ▸ hs⟩
  · exact h id s' hs'

theorem Holds.remove (h : e.Holds K) (s : Session) : (e.remove s).Holds K := by
  have hsessions : (e.remove s).sessions = e.sessions.erase s.id := by
    unfold Engine.remove abortPrewarm
    cases s.prewarm <;> rfl
  intro id s' hs'
  rw [hsessions, Table.get?_erase] at hs'
  split at hs'
  · cases hs'
  · exact h id s' hs'

theorem Holds.abortPrewarm (h : e.Holds K) (s : Session) : (e.abortPrewarm s).Holds K := by
  unfold Engine.abortPrewarm
  cases s.prewarm <;> exact h

theorem Holds.prewarm (h : e.Holds K) {s : Session}
    (hs : ∀ batch, K s.id { s with prewarm := batch }) : (e.prewarm s).Holds K := by
  unfold Engine.prewarm
  simp only
  split
  · exact h
  · exact Holds.setSession h (hs _)

theorem Holds.removeAll (h : e.Holds K) (ss : List Session) :
    (ss.foldl (fun e s => e.remove s) e).Holds K := by
  induction ss generalizing e with
  | nil => exact h
  | cons s ss ih => exact ih (h.remove s)

theorem kept_new (config : Config) (store : σ) (gateOpen : Bool) :
    (Engine.new config store gateOpen : Engine σ π).Kept := by
  intro id s hs
  cases hs

/-!
# Operations

Each leaves an engine whose sessions are as they are to be, whether it returns or
halts.
-/

/-- The operation leaves all sessions as they are to be. -/
abbrev Preserves {α : Type} (op : Operation σ π α) : Prop :=
  op.Leaves Kept (fun _ => Kept) Kept

theorem leaves_find_kept (id : SessionId) :
    (Operation.find id : Operation σ π Session).Leaves Kept
      (fun s e => e.Kept ∧ e.sessions.get? id = some s) Kept :=
  Operation.leaves_find (fun _ _ he hs => ⟨he, hs⟩) fun _ he _ => he

theorem leaves_use_kept (id : SessionId) :
    (Operation.use id : Operation σ π Session).Leaves Kept
      (fun s e => e.Kept ∧ e.sessions.get? id = some s) Kept := by
  refine Operation.leaves_use (fun e s he hs => ?_) fun _ he _ => he
  rcases he id s hs with ⟨hid, hkept⟩
  refine ⟨Holds.setSession he (hkept.use _), ?_⟩
  change (e.sessions.insert s.id _).get? id = _
  rw [Table.get?_insert, if_pos hid.symm]

/-- A session takes the place of one that has been found. -/
theorem leaves_setSession_kept {id : SessionId} {s s' : Session}
    (h : s.Kept → s'.Kept ∧ s'.id = s.id) :
    (Operation.setSession s' : Operation σ π Unit).Leaves
      (fun e => e.Kept ∧ e.sessions.get? id = some s) (fun _ => Kept) Kept := by
  refine Operation.leaves_modify ?_
  rintro e ⟨he, hs⟩
  exact Holds.setSession he (h (he id s hs).right).left

theorem preserves_updateTables (f : Tables π → Tables π) :
    Preserves (Operation.updateTables f : Operation σ π Unit) :=
  Operation.leaves_modify fun _ he => he

theorem preserves_performAll (turns : Nat) {α : Type} (ps : List (Plan π α)) :
    Preserves (Operation.performAll sv turns ps) :=
  Operation.leaves_performAll fun _ _ he => he

theorem preserves_impacts (s : Session) (edited : List ProjectId) : Preserves (impacts sv s edited) := by
  unfold impacts
  refine (Operation.leaves_get (Q := fun _ => Kept) fun _ he => he).bind fun _ => ?_
  exact preserves_performAll _ _

theorem preserves_applyEdits (id : SessionId) (edits : List DocumentEdit) :
    Preserves (applyEdits sv id edits) := by
  unfold applyEdits
  split
  · exact Operation.leaves_fail_bind fun _ he => he
  · refine (leaves_use_kept id).bind fun s => ?_
    refine (leaves_setSession_kept (kept_stageAll edits rfl)).bind fun _ => ?_
    refine (preserves_impacts _ _).bind fun found => ?_
    exact Operation.leaves_pure fun _ he => he

theorem preserves_applyEdit (id : SessionId) (edit : DocumentEdit) :
    Preserves (applyEdit sv id edit) := by
  unfold applyEdit
  refine (preserves_applyEdits id [edit]).bind fun outcome => ?_
  split
  · exact Operation.leaves_fail fun _ he => he
  · exact Operation.leaves_pure fun _ he => he

theorem preserves_rollback (id : SessionId) :
    Preserves (rollback id : Operation σ π Nat) := by
  unfold rollback
  refine (leaves_use_kept id).bind fun s => ?_
  have hphase : Phase.rolledBack ≠ .staged := nofun
  refine (leaves_setSession_kept fun hs => ⟨hs.kept_of_discarded hphase, rfl⟩).bind fun _ => ?_
  exact Operation.leaves_pure fun _ he => he

theorem preserves_pendingEdits (id : SessionId) :
    Preserves (pendingEdits id : Operation σ π (List PendingEdit)) := by
  unfold pendingEdits
  refine (leaves_use_kept id).bind fun s => ?_
  exact Operation.leaves_pure fun _ he => he.left

theorem preserves_projectDiagnostics (s : Session) (analyzed : Bool) (p : ProjectId) :
    Preserves (projectDiagnostics sv s analyzed p) :=
  Operation.leaves_perform fun _ _ he => he

theorem preserves_diagnostics (id : SessionId) (project? : Option ProjectId)
    (analyze? : Option Bool) : Preserves (diagnostics sv id project? analyze?) := by
  unfold diagnostics
  refine (leaves_use_kept id).bind fun s => ?_
  refine (Operation.leaves_get (Q := fun _ => Kept) fun _ he => he.left).bind fun _ => ?_
  cases project? with
  | some p =>
      refine (preserves_projectDiagnostics s _ p).bind fun result => ?_
      refine (Operation.leaves_ofExcept (Q := fun _ => Kept) (fun _ _ he => he)
        fun _ he => he).bind fun ds => ?_
      exact Operation.leaves_pure fun _ he => he
  | none =>
      refine (Operation.leaves_mapM (fun p => ?_) _).bind fun entries => ?_
      · refine (preserves_projectDiagnostics s _ p).bind fun result => ?_
        exact Operation.leaves_pure fun _ he => he
      · exact Operation.leaves_pure fun _ he => he

theorem preserves_invalidateProject (id : SessionId) (p : ProjectId) :
    Preserves (invalidateProject id p : Operation σ π (List ProjectId)) := by
  unfold invalidateProject
  refine (leaves_use_kept id).bind fun s => ?_
  split
  · exact Operation.leaves_fail_bind fun _ he => he.left
  · refine Operation.Leaves.bind (Q := fun _ => Kept)
      (Operation.leaves_modify fun _ he => he.left) fun _ => ?_
    exact Operation.leaves_pure fun _ he => he

theorem preserves_graphSummary (id : SessionId) :
    Preserves (graphSummary id : Operation σ π GraphSummary) := by
  unfold graphSummary
  refine (leaves_use_kept id).bind fun s => ?_
  exact Operation.leaves_pure fun _ he => he.left

theorem preserves_reload (id : SessionId) (path : Path) : Preserves (reload sv id path) := by
  unfold reload
  refine (leaves_find_kept id).bind fun s => ?_
  simp only
  split
  · exact Operation.leaves_fail fun _ he => he.left
  · rename_i p d _
    refine Operation.Leaves.bind (Q := fun _ e => e.Kept ∧ e.sessions.get? id = some s)
      (Operation.leaves_readText fun _ he => he) fun result => ?_
    cases result with
    | error cause => exact Operation.leaves_fail fun _ he => he.left
    | ok content =>
        simp only
        split
        · exact Operation.leaves_pure fun _ he => he.left
        · refine (leaves_setSession_kept fun hs => ⟨hs.update _ _, ?_⟩).bind fun _ => ?_
          · rw [Session.updateDocument_getD]
          · refine (preserves_updateTables _).bind fun _ => ?_
            exact Operation.leaves_pure fun _ he => he

theorem preserves_start (source : Source) (root : Path) (choice : AnalyzerChoice) :
    Preserves (start sv source root choice) := by
  unfold start
  refine Operation.Leaves.bind (Q := fun _ => Kept)
    (Operation.leaves_load (fun _ _ he => he) fun _ he => he) fun w => ?_
  cases sv.analyzers choice with
  | error cause => exact Operation.leaves_fail fun _ he => he
  | ok analyzers =>
      refine (Operation.leaves_get (Q := fun a e => a = e ∧ e.Kept)
        fun _ he => ⟨rfl, he⟩).bind fun e₀ => ?_
      refine Operation.Leaves.bind (Q := fun _ => Kept) (Operation.leaves_set ?_) fun _ =>
        Operation.leaves_pure fun _ he => he
      rintro e ⟨rfl, he⟩
      have hstarted := Session.kept_start e₀.nextId root source analyzers w e₀.clock
      have hcounted : ({ e₀ with started := e₀.started + 1 } : Engine σ π).Kept := he
      exact Holds.prewarm (Holds.setSession hcounted hstarted) hstarted.prewarm

theorem preserves_refresh (id : SessionId) : Preserves (refresh sv id) := by
  unfold refresh
  refine (leaves_use_kept id).bind fun s => ?_
  refine Operation.Leaves.bind (Q := fun _ e => e.Kept ∧ e.sessions.get? id = some s)
    (Operation.leaves_load (fun _ _ he => he) fun _ he => he.left) fun w => ?_
  let reloaded : Session :=
    { (s.discardPending.replaceWorkspace w) with phase := .clean, prewarm := none }
  refine Operation.Leaves.bind (Q := fun _ e => e.Kept ∧ reloaded.Kept)
    (Operation.leaves_modify fun _ he => ?_) fun _ => ?_
  · exact ⟨he.left.abortPrewarm s, (he.left id s he.right).right.kept_of_reloaded w⟩
  · refine Operation.Leaves.bind (Q := fun _ e => e.Kept ∧ reloaded.Kept)
      (Operation.leaves_modify fun _ he => ⟨Holds.setSession he.left he.right, he.right⟩)
      fun _ => ?_
    refine Operation.Leaves.bind (Q := fun _ e => e.Kept ∧ reloaded.Kept)
      (Operation.leaves_modify fun _ he => he) fun _ => ?_
    exact Operation.leaves_modify fun _ he => Holds.prewarm he.left he.right.prewarm

theorem preserves_finish (id : SessionId) : Preserves (finish id : Operation σ π Unit) := by
  unfold finish
  refine (leaves_find_kept id).bind fun s => ?_
  exact Operation.leaves_modify fun _ he => he.left.remove s

theorem preserves_pause (id : SessionId) : Preserves (pause id : Operation σ π Unit) :=
  (leaves_use_kept id).bind fun _ => leaves_setSession_kept fun hs => ⟨hs.pause true, rfl⟩

theorem preserves_unpause (id : SessionId) : Preserves (unpause id : Operation σ π Unit) :=
  (leaves_use_kept id).bind fun _ => leaves_setSession_kept fun hs => ⟨hs.pause false, rfl⟩

theorem preserves_status (id : SessionId) : Preserves (status id : Operation σ π SessionStatus) := by
  unfold status
  refine (leaves_use_kept id).bind fun s => ?_
  refine (Operation.leaves_get (Q := fun _ => Kept) fun _ he => he.left).bind fun _ => ?_
  exact Operation.leaves_pure fun _ he => he

/-!
# Commits

As long as a commit is at work its session may be staged with nothing pending. As
long as nothing has been written, texts and phase are as they were.
-/

/-- The session of a commit that has written some files. -/
structure Committing (s₀ : Session) (written : List Path) (s : Session) : Prop
    extends Session.Recorded s where
  staged : s.pendingEdits ≠ [] → s.phase = .staged
  unwritten : written = [] → s.pendingEdits = s₀.pendingEdits ∧ s.phase = s₀.phase

/-- One session is being committed, and all others are as they are to be. -/
def AtCommit (id : SessionId) (s₀ : Session) (written : List Path) (e : Engine σ π) : Prop :=
  ∀ id' s, e.sessions.get? id' = some s →
    s.id = id' ∧ (id' = id → Committing s₀ written s) ∧ (id' ≠ id → s.Kept)

section

variable {id : SessionId} {s₀ s : Session} {written : List Path}

theorem Committing.settle (h : Committing s₀ written s) (edit : PendingEdit) :
    Committing s₀ (written ++ [edit.path]) (s.settle edit) := by
  have hcleared : ((s.clearPendingIf edit.path edit.text).getD s).Recorded ∧
      ((s.clearPendingIf edit.path edit.text).getD s).phase = s.phase ∧
      ((s.clearPendingIf edit.path edit.text).getD s).pendingEdits ⊆ s.pendingEdits := by
    cases hclear : s.clearPendingIf edit.path edit.text with
    | none => exact ⟨h.toRecorded, rfl, List.Subset.refl _⟩
    | some s' =>
        refine ⟨h.toRecorded.step (.clear hclear), ?_⟩
        unfold Session.clearPendingIf at hclear
        split at hclear
        · cases hclear
          exact ⟨rfl, List.map_subset _ (List.filter_sublist.subset)⟩
        · cases hclear
  unfold Session.settle
  simp only
  generalize (s.clearPendingIf edit.path edit.text).getD s = cleared at hcleared ⊢
  rcases hcleared with ⟨hrecorded, hphase, hsub⟩
  refine ⟨?_, ?_, fun hnone => by simp at hnone⟩
  · cases hupdated : cleared.updateDocument edit.path edit.text with
    | none => exact hrecorded
    | some found => exact hrecorded.step (.update hupdated)
  · rw [Session.updateDocument_getD]
    intro hpending
    refine hphase.trans (h.staged fun hnone => hpending ?_)
    exact List.subset_nil.mp (hnone ▸ hsub)

theorem AtCommit.of_kept (h : e.Kept) (hs : e.sessions.get? id = some s) :
    e.AtCommit id s [] := by
  intro id' s' hs'
  rcases h id' s' hs' with ⟨hid, hkept⟩
  refine ⟨hid, ?_, fun _ => hkept⟩
  rintro rfl
  cases hs.symm.trans hs'
  exact ⟨hkept.toRecorded, hkept.staged.mpr, fun _ => ⟨rfl, rfl⟩⟩

theorem AtCommit.session (h : e.AtCommit id s₀ written) (hs : e.sessions.get? id = some s) :
    s.id = id ∧ Committing s₀ written s :=
  ⟨(h id s hs).left, (h id s hs).right.left rfl⟩

/-- Once the session is as it is to be, all are. -/
theorem AtCommit.kept (h : e.AtCommit id s₀ written)
    (hkept : ∀ s, e.sessions.get? id = some s → s.Kept) : e.Kept := by
  intro id' s hs
  rcases h id' s hs with ⟨hid, _, hother⟩
  refine ⟨hid, ?_⟩
  by_cases heq : id' = id
  · exact hkept s (heq ▸ hs)
  · exact hother heq

theorem AtCommit.setSession (h : e.AtCommit id s₀ written) {s' : Session} {written' : List Path}
    (hid : s'.id = id) (hs' : Committing s₀ written' s') :
    (e.setSession s').AtCommit id s₀ written' := by
  intro id' found hfound
  change (e.sessions.insert s'.id s').get? id' = some found at hfound
  rw [Table.get?_insert, hid] at hfound
  split at hfound
  · rename_i heq
    cases hfound
    exact ⟨hid.trans heq.symm, fun _ => hs', fun hne => (hne heq).elim⟩
  · rename_i hne
    rcases h id' found hfound with ⟨hid', _, hother⟩
    exact ⟨hid', fun heq => (hne heq).elim, hother⟩

theorem AtCommit.kept_setSession (h : e.AtCommit id s₀ written) {s' : Session}
    (hid : s'.id = id) (hs' : s'.Kept) : (e.setSession s').Kept := by
  intro id' found hfound
  change (e.sessions.insert s'.id s').get? id' = some found at hfound
  rw [Table.get?_insert, hid] at hfound
  split at hfound
  · rename_i heq
    cases hfound
    exact ⟨hid.trans heq.symm, hs'⟩
  · rename_i hne
    rcases h id' found hfound with ⟨hid', _, hother⟩
    exact ⟨hid', hother hne⟩

theorem leaves_commitEdit (report : CommitReport) (edit : PendingEdit) :
    (commitEdit sv id report edit).Leaves (AtCommit id s₀ report.written)
      (fun report' => AtCommit id s₀ report'.written) Kept := by
  unfold commitEdit
  refine Operation.Leaves.bind (Q := fun _ => AtCommit id s₀ report.written)
    (Operation.leaves_writeText fun _ he => he) fun result => ?_
  cases result with
  | error cause => exact Operation.leaves_pure fun _ he => he
  | ok _ =>
      refine Operation.Leaves.bind
        (Q := fun s e => e.AtCommit id s₀ report.written ∧ e.sessions.get? id = some s)
        (Operation.leaves_find (fun _ _ he hs => ⟨he, hs⟩) fun e he hnone => ?_) fun s => ?_
      · refine he.kept fun s hs => ?_
        rw [hnone] at hs
        cases hs
      · refine Operation.Leaves.bind
          (Q := fun _ => AtCommit id s₀ (report.written ++ [edit.path]))
          (Operation.leaves_modify fun e he => ?_) fun _ => ?_
        · rcases he.left.session he.right with ⟨hid, hcommitting⟩
          exact he.left.setSession ((s.alike_settle edit).id.trans hid) (hcommitting.settle edit)
        · refine Operation.Leaves.bind
            (Q := fun _ => AtCommit id s₀ (report.written ++ [edit.path]))
            (Operation.leaves_modify fun _ he => he) fun _ => ?_
          exact Operation.leaves_pure fun _ he => he

theorem leaves_commitEdits (report : CommitReport) (edits : List PendingEdit) :
    (edits.foldlM (commitEdit sv id) report).Leaves (AtCommit id s₀ report.written)
      (fun report' => AtCommit id s₀ report'.written) Kept := by
  induction edits generalizing report with
  | nil => exact Operation.leaves_pure fun _ he => he
  | cons edit rest ih =>
      rw [List.foldlM_cons]
      exact (leaves_commitEdit report edit).bind fun report' => ih report'

/-- With its last text written the session is committed. If some are left it is still
staged, and if none were written it is as it was. -/
theorem Committing.kept (h : Committing s₀ written s) (hkept : s₀.Kept)
    (hopen : ¬ (s.pending.size = 0 && !written.isEmpty)) : s.Kept := by
  refine ⟨h.toRecorded, fun hphase hnone => ?_, h.staged⟩
  have hsize : s.pending.size = 0 := by
    rw [PathMap.size, ← List.length_map Prod.snd]
    exact List.length_eq_zero_iff.mpr hnone
  have hwritten : written = [] := by
    simpa [hsize] using hopen
  rcases h.unwritten hwritten with ⟨hpending, hsame⟩
  exact hkept.staged.mp (hsame.symm.trans hphase) (hpending.symm.trans hnone)

theorem Committing.kept_committed (h : Committing s₀ written s) (hdone : s.pending.size = 0) :
    ({ s with phase := .committed } : Session).Kept := by
  refine ⟨h.toRecorded.step (.enter .committed), nofun, fun hpending => (hpending ?_).elim⟩
  have hrows : s.pending.rows = [] := List.length_eq_zero_iff.mp hdone
  change s.pending.rows.map Prod.snd = []
  rw [hrows]
  rfl

theorem preserves_commit (id : SessionId) : Preserves (commit sv id) := by
  unfold commit
  refine (leaves_use_kept id).bind fun s₀ => ?_
  refine Operation.Leaves.bind (Q := fun report e => e.AtCommit id s₀ report.written ∧ s₀.Kept)
    ?_ fun report => ?_
  · refine ((leaves_commitEdits .empty s₀.pendingEdits).and_const s₀.Kept).imp ?_
      (fun _ _ he => he) fun _ he => he
    rintro e ⟨he, hs⟩
    exact ⟨.of_kept he hs, (he id s₀ hs).right⟩
  · refine Operation.Leaves.bind
      (Q := fun s e => e.AtCommit id s₀ report.written ∧ s₀.Kept ∧ e.sessions.get? id = some s)
      (Operation.leaves_find (fun _ _ he hs => ⟨he.left, he.right, hs⟩) fun e he hnone => ?_)
      fun s => ?_
    · refine he.left.kept fun s hs => ?_
      rw [hnone] at hs
      cases hs
    · split
      · rename_i hdone
        refine Operation.Leaves.bind (Q := fun _ => Kept)
          (Operation.leaves_modify fun e he => ?_) fun _ => Operation.leaves_pure fun _ he => he
        rcases he.left.session he.right.right with ⟨hid, hcommitting⟩
        have hsize : s.pending.size = 0 :=
          of_decide_eq_true ((Bool.and_eq_true _ _).mp hdone).left
        exact he.left.kept_setSession hid (hcommitting.kept_committed hsize)
      · rename_i hopen
        refine Operation.leaves_pure fun e he => he.left.kept fun s' hs' => ?_
        cases he.right.right.symm.trans hs'
        exact (he.left.session hs').right.kept he.right.left hopen

end

/-!
# Whatever is done

Operations, events on files, sweeps and the passing of time follow each other in any
order.
-/

inductive Move where
  | start (source : Source) (root : Path) (choice : AnalyzerChoice)
  | ask (id : SessionId) (d : Demand)
  | observe (id : SessionId) (event : FileEvent)
  | sweepIdle (threshold : Nat)
  | tick (ms : Nat)
  | advance (seconds : Nat)
  | startMaintenance
  | settle
  | openGate
  | shutDown

/-- What a move leaves, whether an operation returns or halts. -/
def Move.run (sv : Services σ π) (e : Engine σ π) : Move → Engine σ π
  | .start source root choice => ((Engine.start sv source root choice).run e).2
  | .ask id d => ((d.operation sv id).run e).2
  | .observe id event => ((applyEvent sv id event).run e).2
  | .sweepIdle threshold => (e.sweepIdle threshold).2
  | .tick ms => e.tick ms
  | .advance seconds => e.advance seconds
  | .startMaintenance => e.startMaintenance
  | .settle => e.settle sv
  | .openGate => e.openGate
  | .shutDown => e.shutDown

/-- Moves one after the other. -/
def play (sv : Services σ π) (e : Engine σ π) (moves : List Move) : Engine σ π :=
  moves.foldl (Move.run sv) e

theorem preserves_operation (id : SessionId) (d : Demand) : Preserves (d.operation sv id) := by
  have hpure {α : Type} {op : Operation σ π α} (h : Preserves op) (f : α → Answer) :
      Preserves (do pure (f (← op))) :=
    h.bind fun _ => Operation.leaves_pure fun _ he => he
  cases d with
  | applyEdit edit => exact hpure (preserves_applyEdit id edit) _
  | applyEdits edits => exact hpure (preserves_applyEdits id edits) _
  | commit => exact hpure (preserves_commit id) _
  | rollback => exact hpure (preserves_rollback id) _
  | pendingEdits => exact hpure (preserves_pendingEdits id) _
  | diagnostics project? analyze? => exact hpure (preserves_diagnostics id _ _) _
  | invalidateProject p => exact hpure (preserves_invalidateProject id p) _
  | graphSummary => exact hpure (preserves_graphSummary id) _
  | refresh => exact hpure (preserves_refresh id) fun _ => .done
  | reload path => exact hpure (preserves_reload id path) _
  | pause => exact hpure (preserves_pause id) fun _ => .done
  | unpause => exact hpure (preserves_unpause id) fun _ => .done
  | status => exact hpure (preserves_status id) fun _ => .done
  | finish => exact hpure (preserves_finish id) fun _ => .done

theorem preserves_applyEvent (id : SessionId) (event : FileEvent) :
    Preserves (applyEvent sv id event) := by
  have hrenew : Preserves (do
      refresh sv id
      pure EventOutcome.refreshed) :=
    (preserves_refresh id).bind fun _ => Operation.leaves_pure fun _ he => he
  have hskip : Preserves (pure EventOutcome.skipped : Operation σ π EventOutcome) :=
    Operation.leaves_pure fun _ he => he
  unfold applyEvent
  simp only
  split
  · exact hskip
  · refine (leaves_find_kept id).bind fun s => ?_
    have hdrop {op : Operation σ π EventOutcome} (h : Preserves op) :
        op.Leaves (fun e => e.Kept ∧ e.sessions.get? id = some s) (fun _ => Kept) Kept :=
      h.imp (fun _ he => he.left) (fun _ _ he => he) fun _ he => he
    split
    · exact hdrop hskip
    · split
      · exact hdrop hrenew
      · cases event with
        | removed path =>
            simp only
            split
            · exact hdrop hrenew
            · exact hdrop hskip
        | _ =>
            simp only
            split
            · refine hdrop ((preserves_reload id _).bind fun _ => ?_)
              exact Operation.leaves_pure fun _ he => he
            · split
              · exact hdrop hrenew
              · exact hdrop hskip

theorem Holds.sweepIdle (h : e.Holds K) (threshold : Nat) : (e.sweepIdle threshold).2.Holds K :=
  h.removeAll _

/-- What the maintenance does to sessions is done by the sweep of the idle ones. -/
theorem Holds.runDueSweeps (h : e.Holds K) : e.runDueSweeps.Holds K := by
  unfold Engine.runDueSweeps
  cases e.maintenance with
  | none => exact h
  | some m =>
      have hexpired : (e.updateTables fun t =>
          (t.sweepExpired (milliseconds e.config.cache.maxEntryAge)).2).Holds K := h
      simp only
      split <;> split
      · exact fun id s hs => hexpired.sweepIdle _ id s hs
      · exact hexpired
      · exact fun id s hs => h.sweepIdle _ id s hs
      · exact h

theorem Kept.of_leaves {α : Type} {op : Operation σ π α} (h : e.Kept) (hop : Preserves op) :
    (op.run e).2.Kept := by
  have hrun := hop e h
  rcases hout : op.run e with ⟨_ | a, e'⟩ <;> rw [hout] at hrun <;> exact hrun

theorem Kept.move (h : e.Kept) (m : Move) : (m.run sv e).Kept := by
  cases m with
  | start source root choice => exact h.of_leaves (preserves_start source root choice)
  | ask id d => exact h.of_leaves (preserves_operation id d)
  | observe id event => exact h.of_leaves (preserves_applyEvent id event)
  | sweepIdle threshold => exact Holds.sweepIdle h threshold
  | advance seconds =>
      have hlater : ({ e with timers := e.timers + milliseconds seconds } : Engine σ π).Kept := h
      exact Holds.runDueSweeps hlater
  | startMaintenance =>
      change Kept e.startMaintenance
      unfold Engine.startMaintenance
      split <;> exact h
  | shutDown =>
      have hstopped : ({ e with maintenance := none } : Engine σ π).Kept := h
      exact Holds.removeAll hstopped _
  | tick ms => exact h
  | settle => exact h
  | openGate => exact h

theorem Kept.play (h : e.Kept) (moves : List Move) : (Engine.play sv e moves).Kept := by
  induction moves generalizing e with
  | nil => exact h
  | cons m moves ih => exact ih (h.move m)

/-- Whatever has been done to an engine, its sessions are as they are to be. -/
theorem represented_of_play (sv : Services σ π) (config : Config) (store : σ) (gateOpen : Bool)
    (moves : List Move) {id : SessionId} {s : Session}
    (hs : (Engine.play sv (.new config store gateOpen) moves).sessions.get? id = some s) :
    s.Represented :=
  ((kept_new config store gateOpen).play moves id s hs).right.represented

/-- Texts for two files and one for a file that is not there, and a commit. -/
def linkedMoves : List Move :=
  [.start .workspace ⟨"/"⟩ ⟨true, [], []⟩,
    .ask ⟨"s1"⟩ (.applyEdits
      [⟨⟨"/s"⟩, [⟨⟨0, 0⟩, "x"⟩]⟩, ⟨⟨"/t"⟩, [⟨⟨0, 0⟩, "y"⟩]⟩, ⟨⟨"/u"⟩, []⟩]),
    .ask ⟨"s1"⟩ .commit]

/-- One of the files cannot be written, so its text stays. -/
theorem represented_linked : ∃ s,
    (Engine.play remembering
      (.new .default ((Memory.ofWorkspace linked).closeTo ⟨"/t"⟩) true)
      linkedMoves).sessions.get? ⟨"s1"⟩ = some s ∧
    s.pendingEdits = [⟨⟨"b"⟩, ⟨"/t"⟩, "yold"⟩] ∧ s.phase = .staged ∧ s.Represented := by
  have hrun : ((Engine.play remembering
      (.new .default ((Memory.ofWorkspace linked).closeTo ⟨"/t"⟩) true)
      linkedMoves).sessions.get? ⟨"s1"⟩).map (fun s => (s.pendingEdits, s.phase)) =
      some ([⟨⟨"b"⟩, ⟨"/t"⟩, "yold"⟩], .staged) := by
    decide +kernel
  rcases Option.map_eq_some_iff.mp hrun with ⟨s, hs, hkept⟩
  rcases Prod.mk.inj hkept with ⟨hpending, hphase⟩
  exact ⟨s, hs, hpending, hphase, represented_of_play _ _ _ _ _ hs⟩

end Engine
end Ripple
