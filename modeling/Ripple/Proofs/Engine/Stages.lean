import Ripple.Proofs.Engine.Outcomes

/-!
# Operations step by step

A commit, a refresh and a reload turn to the store, and what comes of it is folded into
the session afterwards. Others may come in between. The steps of an operation one after
the other are the operation.
-/

namespace Ripple

open Cache

variable {σ π : Type}

namespace Operation

variable {α β : Type} {e : Engine σ π}

/-- What follows an operation matters for what it returns. -/
theorem run_bind_congr {op : Operation σ π α} {k k' : α → Operation σ π β}
    (h : ∀ a e', op.Returns e a e' → (k a).run e' = (k' a).run e') :
    (op >>= k).run e = (op >>= k').run e := by
  rw [run_bind, run_bind]
  rcases hout : op.run e with ⟨halt | a, e'⟩
  · rfl
  · exact h a e' hout

end Operation

namespace Engine

/-- How far an operation is. All but those on files are done in one step. -/
inductive Stage where
  | asked (d : Demand)
  /-- Some texts are left to be written. -/
  | writing (left : List PendingEdit) (report : CommitReport)
  /-- A text is written and is not in the session yet. -/
  | folding (edit : PendingEdit) (left : List PendingEdit) (report : CommitReport)
  /-- A document has been found, with its content, and is yet to be read. -/
  | reading (path : Path) (p : ProjectId) (known : String)
  /-- A document has been read that is not as it was found. -/
  | updating (path : Path) (p : ProjectId) (content : String)
  | loading (source : Source) (root : Path)
  /-- A workspace has been loaded and is not in the session yet. -/
  | replacing (w : Workspace)
  | answered (answer : Answer)
  | failed (halt : Halt)

/-!
# The folds
-/

/-- Folds a text into the session that has been written. -/
def foldEdit (id : SessionId) (report : CommitReport) (edit : PendingEdit) :
    Operation σ π CommitReport := do
  let s ← Operation.find id
  let s := (s.clearPendingIf edit.path edit.text).getD s
  let s := ((s.updateDocument edit.path edit.text).map Prod.snd).getD s
  Operation.setSession s
  Operation.updateTables fun t => t.invalidateDownstream id s.graph edit.project
  pure { report with
    written := report.written ++ [edit.path]
    invalidated := addNew report.invalidated (Tables.affectedBy s.graph edit.project) }

/-- Marks the session once nothing is pending in it any more. -/
def concludeCommit (id : SessionId) (report : CommitReport) : Operation σ π Answer := do
  let s ← Operation.find id
  if s.pending.size = 0 && !report.written.isEmpty then
    Operation.setSession { s with phase := .committed }
  pure (.committed report)

/-- Folds the content of a document into the session that has been read. -/
def foldContent (id : SessionId) (path : Path) (p : ProjectId) (content : String) :
    Operation σ π Answer := do
  let s ← Operation.find id
  let s := ((s.updateDocument path content).map Prod.snd).getD s
  Operation.setSession s
  Operation.updateTables fun t => t.invalidateDownstream id s.graph p
  pure (.invalidated (Tables.affectedBy s.graph p))

/-- Puts a workspace into the session that has been loaded. -/
def foldWorkspace (id : SessionId) (w : Workspace) : Operation σ π Answer := do
  let s ← Operation.find id
  modify (·.abortPrewarm s)
  let s := { (s.discardPending.replaceWorkspace w) with phase := .clean, prewarm := none }
  Operation.setSession s
  Operation.updateTables fun t => t.invalidateSession id
  modify (·.prewarm s)
  pure .done

/-!
# One step
-/

/-- What is found out about a document before it is read again. -/
def findDocument (id : SessionId) (path : Path) : Operation σ π Stage := do
  let s ← Operation.find id
  let path := s.workspace.resolve path
  match s.workspace.document? path with
  | none => Operation.fail (.documentNotFound path)
  | some (p, d) => pure (.reading path p.id d.content)

def Stage.step (sv : Services σ π) (id : SessionId) : Stage → Operation σ π Stage
  | .asked .commit => do
      let s ← Operation.use id
      pure (.writing s.pendingEdits .empty)
  | .asked (.reload path) => findDocument id path
  | .asked .refresh => do
      let s ← Operation.use id
      pure (.loading s.source s.root)
  | .asked d => do pure (.answered (← d.operation sv id))
  | .writing [] report => do pure (.answered (← concludeCommit id report))
  | .writing (edit :: left) report => do
      match ← Operation.writeText sv edit.path edit.text with
      | .error e =>
          pure (.writing left { report with
            failed := report.failed ++ [⟨edit.path, .writeFailed edit.path e.message⟩] })
      | .ok () => pure (.folding edit left report)
  | .folding edit left report => do pure (.writing left (← foldEdit id report edit))
  | .reading path p known => do
      match ← Operation.readText sv path with
      | .error e => Operation.fail (.readFailed path e.message)
      | .ok content =>
          if content = known then pure (.answered (.invalidated []))
          else pure (.updating path p content)
  | .updating path p content => do pure (.answered (← foldContent id path p content))
  | .loading source root => do pure (.replacing (← Operation.load sv source root))
  | .replacing w => do pure (.answered (← foldWorkspace id w))
  | .answered answer => pure (.answered answer)
  | .failed halt => pure (.failed halt)

/-- What is left to do. -/
def Stage.rest (sv : Services σ π) (id : SessionId) : Stage → Operation σ π Answer
  | .asked d => d.operation sv id
  | .writing left report => do
      let report ← left.foldlM (commitEdit sv id) report
      concludeCommit id report
  | .folding edit left report => do
      let report ← foldEdit id report edit
      let report ← left.foldlM (commitEdit sv id) report
      concludeCommit id report
  | .reading path p known => do
      match ← Operation.readText sv path with
      | .error e => Operation.fail (.readFailed path e.message)
      | .ok content =>
          if content = known then pure (.invalidated []) else foldContent id path p content
  | .updating path p content => foldContent id path p content
  | .loading source root => do
      let w ← Operation.load sv source root
      foldWorkspace id w
  | .replacing w => foldWorkspace id w
  | .answered answer => pure answer
  | .failed halt => throw halt

theorem commitEdit_eq (sv : Services σ π) (id : SessionId) (report : CommitReport)
    (edit : PendingEdit) :
    commitEdit sv id report edit = (do
      match ← Operation.writeText sv edit.path edit.text with
      | .error e =>
          pure { report with
            failed := report.failed ++ [⟨edit.path, .writeFailed edit.path e.message⟩] }
      | .ok () => foldEdit id report edit) := rfl

/-- What is left to do is the next step and what is left after that. -/
theorem Stage.run_rest (sv : Services σ π) {id : SessionId} {e : Engine σ π}
    (hkeyed : ∀ s, e.sessions.get? id = some s → s.id = id) (stage : Stage) :
    (stage.step sv id >>= Stage.rest sv id).run e = (stage.rest sv id).run e := by
  cases stage with
  | asked d =>
      cases d with
      | commit =>
          simp only [Stage.step, Stage.rest, bind_assoc, pure_bind, Demand.operation, commit,
            concludeCommit]
          refine Operation.run_bind_congr fun s e₁ _ => ?_
          refine Operation.run_bind_congr fun report e₂ _ => ?_
          refine Operation.run_bind_congr fun s' e₃ _ => ?_
          split <;> simp only [bind_assoc, pure_bind]
      | reload path =>
          simp only [Stage.step, Stage.rest, Demand.operation, reload, findDocument, bind_assoc]
          refine Operation.run_bind_congr fun s e₁ hfind => ?_
          rcases Operation.returns_find_iff.mp hfind with ⟨_, rfl⟩
          cases s.workspace.document? (s.workspace.resolve path) with
          | none => rfl
          | some found =>
              simp only [pure_bind, bind_assoc]
              refine Operation.run_bind_congr fun result e₂ hread => ?_
              cases hread
              cases sv.store.read e₁.store (s.workspace.resolve path) with
              | error cause => rfl
              | ok content =>
                  simp only
                  split
                  · rfl
                  · simp only [bind_assoc, pure_bind]
                    exact hfind.run_bind _
      | refresh =>
          simp only [Stage.step, Stage.rest, bind_assoc, pure_bind, Demand.operation, refresh,
            foldWorkspace]
          refine Operation.run_bind_congr fun s e₁ huse => ?_
          rcases Operation.returns_use_iff.mp huse with ⟨s₀, hs₀, rfl, rfl⟩
          refine Operation.run_bind_congr fun w e₂ hload => ?_
          have hloaded := congrArg Prod.snd ((Operation.ends_load sv _ _ _).symm.trans hload)
          have hsession : e₂.sessions.get? id = some { s₀ with lastAccess := e.clock } := by
            subst hloaded
            rw [← hkeyed s₀ hs₀]
            exact Table.get?_insert_self _ _ _
          exact (Operation.returns_find_iff.mpr ⟨hsession, rfl⟩).run_bind _
      | _ => simp only [Stage.step, Stage.rest, bind_assoc, pure_bind, bind_pure]
  | writing left report =>
      cases left with
      | nil => simp only [Stage.step, Stage.rest, bind_assoc, pure_bind, bind_pure, List.foldlM_nil]
      | cons edit left =>
          simp only [Stage.step, Stage.rest, List.foldlM_cons, commitEdit_eq, bind_assoc]
          refine Operation.run_bind_congr fun result e' _ => ?_
          cases result <;> simp only [pure_bind] <;> rfl
  | reading path p known =>
      simp only [Stage.step, Stage.rest, bind_assoc]
      refine Operation.run_bind_congr fun result e' _ => ?_
      cases result with
      | error cause => rfl
      | ok content =>
          simp only
          split <;> simp only [pure_bind] <;> rfl
  | failed halt => simp only [Stage.step, Stage.rest, pure_bind]
  | _ => simp only [Stage.step, Stage.rest, bind_assoc, pure_bind, bind_pure]

/-- The operation, one step on; an error is the end of it. -/
def Stage.advance (sv : Services σ π) (id : SessionId) (stage : Stage) (e : Engine σ π) :
    Stage × Engine σ π :=
  match (stage.step sv id).run e with
  | (.ok stage, e) => (stage, e)
  | (.error halt, e) => (.failed halt, e)

/-!
# What the steps do

Each is told for an engine that has the session.
-/

section Steps

variable {sv : Services σ π} {id : SessionId} {e : Engine σ π} {s : Session}

theorem advance_of_returns {stage stage' : Stage} {e' : Engine σ π}
    (h : (stage.step sv id).Returns e stage' e') : stage.advance sv id e = (stage', e') := by
  unfold Stage.advance
  rw [h]

theorem advance_of_error {stage : Stage} {error : Error} {e' : Engine σ π}
    (h : (stage.step sv id).Ends e (.error error) e') :
    stage.advance sv id e = (.failed (.failed error), e') := by
  unfold Stage.advance
  rw [h]
  rfl

theorem get?_setSession {t : Session} (h : t.id = id) :
    (e.setSession t).sessions.get? id = some t := by
  subst h
  exact Table.get?_insert_self _ _ _

theorem step_commit (h : e.sessions.get? id = some s) :
    ((Stage.asked .commit).step sv id).Returns e (.writing s.pendingEdits .empty)
      (e.setSession { s with lastAccess := e.clock }) :=
  Operation.returns_bind_iff.mpr
    ⟨_, _, Operation.returns_use_iff.mpr ⟨s, h, rfl, rfl⟩, Operation.returns_pure_iff.mpr ⟨rfl, rfl⟩⟩

theorem step_conclude (h : e.sessions.get? id = some s) (report : CommitReport) :
    ((Stage.writing [] report).step sv id).Returns e (.answered (.committed report))
      (if s.pending.size = 0 && !report.written.isEmpty then
        e.setSession { s with phase := .committed } else e) := by
  refine Operation.returns_bind_iff.mpr ⟨.committed report, _, ?_,
    Operation.returns_pure_iff.mpr ⟨rfl, rfl⟩⟩
  refine Operation.returns_bind_iff.mpr ⟨s, e, Operation.returns_find_iff.mpr ⟨h, rfl⟩, ?_⟩
  split
  · exact Operation.returns_bind_iff.mpr ⟨⟨⟩, _, Operation.returns_setSession_iff.mpr rfl,
      Operation.returns_pure_iff.mpr ⟨rfl, rfl⟩⟩
  · exact Operation.returns_pure_iff.mpr ⟨rfl, rfl⟩

theorem step_refused {edit : PendingEdit} {cause : FileError} {store : σ}
    (hwrite : sv.store.write e.store edit.path edit.text = (.error cause, store))
    (left : List PendingEdit) (report : CommitReport) :
    ((Stage.writing (edit :: left) report).step sv id).Returns e
      (.writing left { report with
        failed := report.failed ++ [⟨edit.path, .writeFailed edit.path cause.message⟩] })
      { e with store := store } := by
  refine Operation.returns_bind_iff.mpr
    ⟨_, _, Operation.returns_writeText_iff.mpr ⟨rfl, rfl⟩, ?_⟩
  rw [hwrite]
  exact Operation.returns_pure_iff.mpr ⟨rfl, rfl⟩

theorem step_written {edit : PendingEdit} {store : σ}
    (hwrite : sv.store.write e.store edit.path edit.text = (.ok (), store))
    (left : List PendingEdit) (report : CommitReport) :
    ((Stage.writing (edit :: left) report).step sv id).Returns e (.folding edit left report)
      { e with store := store } := by
  refine Operation.returns_bind_iff.mpr
    ⟨_, _, Operation.returns_writeText_iff.mpr ⟨rfl, rfl⟩, ?_⟩
  rw [hwrite]
  exact Operation.returns_pure_iff.mpr ⟨rfl, rfl⟩

theorem step_folding (h : e.sessions.get? id = some s) (edit : PendingEdit)
    (left : List PendingEdit) (report : CommitReport) :
    ((Stage.folding edit left report).step sv id).Returns e
      (.writing left { report with
        written := report.written ++ [edit.path]
        invalidated :=
          addNew report.invalidated (Tables.affectedBy (s.settle edit).graph edit.project) })
      ((e.setSession (s.settle edit)).updateTables fun t =>
        t.invalidateDownstream id (s.settle edit).graph edit.project) := by
  refine Operation.returns_bind_iff.mpr ⟨_, _, ?_, Operation.returns_pure_iff.mpr ⟨rfl, rfl⟩⟩
  refine Operation.returns_bind_iff.mpr ⟨s, e, Operation.returns_find_iff.mpr ⟨h, rfl⟩, ?_⟩
  refine Operation.returns_bind_iff.mpr ⟨⟨⟩, _, Operation.returns_setSession_iff.mpr rfl, ?_⟩
  refine Operation.returns_bind_iff.mpr ⟨⟨⟩, _, Operation.returns_updateTables_iff.mpr rfl, ?_⟩
  exact Operation.returns_pure_iff.mpr ⟨rfl, rfl⟩

theorem step_found (h : e.sessions.get? id = some s) {path : Path} {p : Project} {d : Document}
    (hfound : s.workspace.document? (s.workspace.resolve path) = some (p, d)) :
    ((Stage.asked (.reload path)).step sv id).Returns e
      (.reading (s.workspace.resolve path) p.id d.content) e := by
  refine Operation.returns_bind_iff.mpr ⟨s, e, Operation.returns_find_iff.mpr ⟨h, rfl⟩, ?_⟩
  simp only [hfound]
  exact Operation.returns_pure_iff.mpr ⟨rfl, rfl⟩

theorem step_missing (h : e.sessions.get? id = some s) {path : Path}
    (hmissing : s.workspace.document? (s.workspace.resolve path) = none) :
    ((Stage.asked (.reload path)).step sv id).Ends e
      (.error (.documentNotFound (s.workspace.resolve path))) e := by
  refine (Operation.returns_find_iff.mpr ⟨h, rfl⟩).bind ?_
  simp only [hmissing]
  exact Operation.ends_fail _ _

theorem step_refresh (h : e.sessions.get? id = some s) :
    ((Stage.asked .refresh).step sv id).Returns e (.loading s.source s.root)
      (e.setSession { s with lastAccess := e.clock }) :=
  Operation.returns_bind_iff.mpr
    ⟨_, _, Operation.returns_use_iff.mpr ⟨s, h, rfl, rfl⟩, Operation.returns_pure_iff.mpr ⟨rfl, rfl⟩⟩

theorem step_unreadable {path : Path} {cause : FileError}
    (hread : sv.store.read e.store path = .error cause) (p : ProjectId) (known : String) :
    ((Stage.reading path p known).step sv id).Ends e (.error (.readFailed path cause.message)) e := by
  have hreads : (Operation.readText sv path).Returns e (.error cause) e := hread ▸ rfl
  exact hreads.bind (Operation.ends_fail _ _)

theorem step_read {path : Path} {content : String}
    (hread : sv.store.read e.store path = .ok content) (p : ProjectId) (known : String) :
    ((Stage.reading path p known).step sv id).Returns e
      (if content = known then .answered (.invalidated []) else .updating path p content) e := by
  have hreads : (Operation.readText sv path).Returns e (.ok content) e := hread ▸ rfl
  refine Operation.returns_bind_iff.mpr ⟨_, _, hreads, ?_⟩
  simp only
  split <;> exact Operation.returns_pure_iff.mpr ⟨rfl, rfl⟩

theorem step_updating (h : e.sessions.get? id = some s) (path : Path) (p : ProjectId)
    (content : String) :
    let t := ((s.updateDocument path content).map Prod.snd).getD s
    ((Stage.updating path p content).step sv id).Returns e
      (.answered (.invalidated (Tables.affectedBy t.graph p)))
      ((e.setSession t).updateTables fun tables => tables.invalidateDownstream id t.graph p) := by
  refine Operation.returns_bind_iff.mpr ⟨_, _, ?_, Operation.returns_pure_iff.mpr ⟨rfl, rfl⟩⟩
  refine Operation.returns_bind_iff.mpr ⟨s, e, Operation.returns_find_iff.mpr ⟨h, rfl⟩, ?_⟩
  refine Operation.returns_bind_iff.mpr ⟨⟨⟩, _, Operation.returns_setSession_iff.mpr rfl, ?_⟩
  refine Operation.returns_bind_iff.mpr ⟨⟨⟩, _, Operation.returns_updateTables_iff.mpr rfl, ?_⟩
  exact Operation.returns_pure_iff.mpr ⟨rfl, rfl⟩

theorem step_loaded {source : Source} {root : Path} {w : Workspace} {store : σ}
    (hload : sv.store.load e.store source root = (.ok w, store)) :
    ((Stage.loading source root).step sv id).Returns e (.replacing w) { e with store := store } := by
  have hends := Operation.ends_load sv source root e
  rw [hload] at hends
  exact Operation.returns_bind_iff.mpr ⟨w, _, hends, Operation.returns_pure_iff.mpr ⟨rfl, rfl⟩⟩

theorem step_unloadable {source : Source} {root : Path} {cause : String} {store : σ}
    (hload : sv.store.load e.store source root = (.error cause, store)) :
    ((Stage.loading source root).step sv id).Ends e (.error (.loadFailed root cause))
      { e with store := store } := by
  have hends := Operation.ends_load sv source root e
  rw [hload] at hends
  exact hends.map Stage.replacing

/-- The engine that a loaded workspace is put into, before the leaves are compiled ahead. -/
def replacing (id : SessionId) (e : Engine σ π) (s : Session) (w : Workspace) : Engine σ π :=
  ((e.abortPrewarm s).setSession (renewed s w)).updateTables fun t => t.invalidateSession id

theorem rests_replacing (id : SessionId) (e : Engine σ π) (s : Session) (w : Workspace) :
    e.Rests ((replacing id e s w).prewarm (renewed s w)) := by
  have habort : e.Rests (e.abortPrewarm s) := by
    unfold Engine.abortPrewarm
    cases s.prewarm <;> exact ⟨rfl, rfl⟩
  simp only [Engine.prewarm]
  split <;> exact habort

theorem step_replacing (h : e.sessions.get? id = some s) (w : Workspace) :
    ((Stage.replacing w).step sv id).Returns e (.answered .done)
      ((replacing id e s w).prewarm (renewed s w)) := by
  refine Operation.returns_bind_iff.mpr ⟨_, _, ?_, Operation.returns_pure_iff.mpr ⟨rfl, rfl⟩⟩
  refine Operation.returns_bind_iff.mpr ⟨s, e, Operation.returns_find_iff.mpr ⟨h, rfl⟩, ?_⟩
  refine Operation.returns_bind_iff.mpr ⟨⟨⟩, _, Operation.returns_modify_iff.mpr rfl, ?_⟩
  refine Operation.returns_bind_iff.mpr ⟨⟨⟩, _, Operation.returns_setSession_iff.mpr rfl, ?_⟩
  refine Operation.returns_bind_iff.mpr ⟨⟨⟩, _, Operation.returns_updateTables_iff.mpr rfl, ?_⟩
  refine Operation.returns_bind_iff.mpr ⟨⟨⟩, _, Operation.returns_modify_iff.mpr rfl, ?_⟩
  exact Operation.returns_pure_iff.mpr ⟨rfl, rfl⟩

end Steps

end Engine
end Ripple
