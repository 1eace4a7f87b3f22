import Mathlib.Logic.Relation
import Ripple.Proofs.Graph.Build
import Ripple.Proofs.Workspace.Content

/-!
# What sessions can be like

A session is started, and from then on edits are staged in it, texts are folded
into it, and it may be loaded anew. Through all of this its graph is the one of
its workspace, and its pending texts are those of documents that it has.
-/

namespace Ripple

/-!
# Contents have no bearing on the shape
-/

variable {texts : Path → Option String}

theorem map_shape_putFirstIn (seen : List Path) (ps : List Project) :
    (putFirstIn texts seen ps).map Project.shape = ps.map Project.shape := by
  induction ps generalizing seen with
  | nil => rfl
  | cons p ps ih =>
      rw [putFirstIn, List.map_cons, List.map_cons, ih]
      rfl

theorem map_path_putFirstIn (seen : List Path) (ps : List Project) :
    ((putFirstIn texts seen ps).flatMap Project.documents).map Document.path =
      (ps.flatMap Project.documents).map Document.path := by
  induction ps generalizing seen with
  | nil => rfl
  | cons p ps ih =>
      simp only [putFirstIn, List.flatMap_cons, List.map_append, map_path_putFirst, ih]

namespace Workspace

theorem build_putTexts (w : Workspace) : Graph.build (w.putTexts texts) = Graph.build w :=
  Graph.build_congr (map_shape_putFirstIn [] w.projects)

theorem map_path_putTexts (w : Workspace) :
    (w.putTexts texts).documents.map Document.path = w.documents.map Document.path :=
  map_path_putFirstIn [] w.projects

theorem exists_of_setFirstProject {path : Path} {text : String} {ps ps' : List Project}
    (h : setFirstProject path text ps = some ps') :
    ∃ p ∈ ps, ∃ d ∈ p.documents, d.path.same path := by
  induction ps generalizing ps' with
  | nil => cases h
  | cons p ps ih =>
      unfold setFirstProject at h
      cases hset : setFirstDocument path text p.documents with
      | some ds => exact ⟨p, List.mem_cons_self, exists_of_setFirstDocument hset⟩
      | none =>
          rw [hset] at h
          rcases Option.map_eq_some_iff.mp h with ⟨rest, hrest, _⟩
          rcases ih hrest with ⟨p', hp', hd⟩
          exact ⟨p', List.mem_cons_of_mem _ hp', hd⟩

/-- A text is only set where a document is found. -/
theorem setContent?_eq_none {w : Workspace} {path : Path} (h : w.document? path = none)
    (text : String) : w.setContent? path text = none := by
  rw [setContent?, Option.map_eq_none_iff]
  cases hset : setFirstProject (w.resolve path) text w.projects with
  | none => rfl
  | some ps =>
      rcases exists_of_setFirstProject hset with ⟨p, hp, d, hd, hsame⟩
      have hnone := List.findSome?_eq_none_iff.mp h p hp
      rw [Option.map_eq_none_iff, Project.document?, List.find?_eq_none] at hnone
      exact absurd hsame (hnone d hd)

theorem mem_documents_of_document? {w : Workspace} {path : Path} {p : Project} {d : Document}
    (h : w.document? path = some (p, d)) :
    p ∈ w.projects ∧ d ∈ p.documents ∧ d.path.same (w.resolve path) := by
  rcases List.exists_of_findSome?_eq_some h with ⟨p', hp', hfound⟩
  rcases Option.map_eq_some_iff.mp hfound with ⟨d', hd', heq⟩
  cases heq
  have hsame : d.path.same (w.resolve path) :=
    List.find?_some (p := fun d : Document => d.path.same (w.resolve path)) hd'
  exact ⟨hp', List.mem_of_find?_eq_some hd', hsame⟩

end Workspace

/-!
# Steps of a session
-/

namespace Session

theorem updateDocument_getD (s : Session) (path : Path) (text : String) :
    ((s.updateDocument path text).map Prod.snd).getD s =
      { s with workspace := (s.workspace.setContent? path text).getD s.workspace } := by
  unfold updateDocument
  cases hfound : s.workspace.document? path with
  | none =>
      rw [Workspace.setContent?_eq_none hfound]
      rfl
  | some found =>
      cases s.workspace.setContent? path text <;> rfl

theorem stageEdit_eq_ok_iff {s : Session} {w : Workspace} {e : DocumentEdit} {id : ProjectId}
    {s' : Session} :
    s.stageEdit w e = .ok (id, s') ↔
      ∃ p d text, w.document? e.file = some (p, d) ∧
        Change.applyAll ((s.pendingText? d.path).getD d.content) e.changes = .ok text ∧
        id = p.id ∧ s' = s.stage ⟨p.id, d.path, text⟩ := by
  unfold stageEdit
  cases hfound : w.document? e.file with
  | none => simp [throw, throwThe, MonadExceptOf.throw]
  | some found =>
      rcases found with ⟨p, d⟩
      cases hchange : Change.applyAll ((s.pendingText? d.path).getD d.content) e.changes with
      | error refusal => simp [throw, throwThe, MonadExceptOf.throw, hchange]
      | ok text =>
          simp only [hchange]
          constructor
          · intro h
            cases h
            exact ⟨p, d, text, rfl, hchange, rfl, rfl⟩
          · rintro ⟨p', d', text', hfound', hchange', rfl, rfl⟩
            cases hfound'
            rw [hchange] at hchange'
            cases hchange'
            rfl

/-- All that is done to a session in its life. -/
inductive Step (s : Session) : Session → Prop where
  | stage {e : DocumentEdit} {id : ProjectId} {s' : Session}
      (h : s.stageEdit s.workspace e = .ok (id, s')) : Step s s'
  | clear {path : Path} {text : String} {s' : Session}
      (h : s.clearPendingIf path text = some s') : Step s s'
  | update {path : Path} {text : String} {id : ProjectId} {s' : Session}
      (h : s.updateDocument path text = some (id, s')) : Step s s'
  | discard : Step s s.discardPending
  | reload (w : Workspace) : Step s (s.discardPending.replaceWorkspace w)
  | use (now : Nat) : Step s { s with lastAccess := now }
  | enter (phase : Phase) : Step s { s with phase := phase }
  | pause (isPaused : Bool) : Step s { s with isPaused := isPaused }
  | prewarm (batch : Option Nat) : Step s { s with prewarm := batch }

/-- What can become of a session that has been started. -/
def Reachable (s : Session) : Prop :=
  ∃ id root source analyzers w now,
    Relation.ReflTransGen Step (start id root source analyzers w now) s

theorem Reachable.step {s s' : Session} (h : s.Reachable) (hstep : s.Step s') :
    s'.Reachable := by
  rcases h with ⟨id, root, source, analyzers, w, now, hsteps⟩
  exact ⟨id, root, source, analyzers, w, now, hsteps.tail hstep⟩

/-!
# The invariant
-/

structure Formed (s : Session) : Prop where
  graph : s.graph = .build s.workspace
  sorted : s.pending.Sorted
  keys : ∀ row ∈ s.pending.rows, row.1.same row.2.path
  paths : ∀ e ∈ s.pendingEdits, ∃ d ∈ s.workspace.documents, d.path = e.path

theorem formed_start (id : SessionId) (root : Path) (source : Source) (analyzers : AnalyzerSet)
    (w : Workspace) (now : Nat) : (start id root source analyzers w now).Formed :=
  ⟨rfl, PathMap.sorted_empty, fun _ h => (List.not_mem_nil h).elim,
    fun _ h => (List.not_mem_nil h).elim⟩

theorem Formed.stage {s : Session} (h : s.Formed) {p : Project} {d : Document}
    (hp : p ∈ s.workspace.projects) (hd : d ∈ p.documents) (text : String) :
    (s.stage ⟨p.id, d.path, text⟩).Formed where
  graph := h.graph
  sorted := h.sorted.insert _ _
  keys row hrow := by
    rcases PathMap.mem_placeRow hrow with ⟨hsame, hvalue⟩ | hrow
    · rw [hvalue]
      exact hsame
    · exact h.keys row hrow
  paths e he := by
    rcases List.mem_map.mp he with ⟨row, hrow, rfl⟩
    rcases PathMap.mem_placeRow hrow with ⟨_, hvalue⟩ | hrow
    · rw [hvalue]
      exact ⟨d, List.mem_flatMap.mpr ⟨p, hp, hd⟩, rfl⟩
    · exact h.paths _ (List.mem_map_of_mem hrow)

theorem Formed.putTexts {s : Session} (h : s.Formed) :
    ({ s with workspace := s.workspace.putTexts texts } : Session).Formed where
  graph := h.graph.trans s.workspace.build_putTexts.symm
  sorted := h.sorted
  keys := h.keys
  paths e he := by
    rcases h.paths e he with ⟨d, hd, hpath⟩
    have hmem : d.path ∈ (s.workspace.putTexts texts).documents.map Document.path := by
      rw [Workspace.map_path_putTexts]
      exact List.mem_map_of_mem hd
    rcases List.mem_map.mp hmem with ⟨d', hd', hsame⟩
    exact ⟨d', hd', hsame.trans hpath⟩

theorem Formed.step {s s' : Session} (h : s.Formed) (hstep : s.Step s') : s'.Formed := by
  cases hstep with
  | stage hstage =>
      rcases stageEdit_eq_ok_iff.mp hstage with ⟨p, d, text, hfound, _, _, rfl⟩
      rcases Workspace.mem_documents_of_document? hfound with ⟨hp, hd, _⟩
      exact h.stage hp hd text
  | @clear path text s' hclear =>
      unfold clearPendingIf at hclear
      split at hclear
      · cases hclear
        refine ⟨h.graph, h.sorted.erase path, fun row hrow => ?_, fun e he => ?_⟩
        · exact h.keys row (List.mem_filter.mp hrow).left
        · rcases List.mem_map.mp he with ⟨row, hrow, rfl⟩
          exact h.paths _ (List.mem_map_of_mem (List.mem_filter.mp hrow).left)
      · cases hclear
  | @update path text id s' hupdate =>
      have hs' := s.updateDocument_getD path text
      rw [hupdate] at hs'
      change s' = _ at hs'
      rw [hs', ← Workspace.putTexts_textAt]
      exact h.putTexts
  | discard =>
      exact ⟨h.graph, PathMap.sorted_empty, fun _ h => (List.not_mem_nil h).elim,
        fun _ h => (List.not_mem_nil h).elim⟩
  | reload w =>
      exact ⟨rfl, PathMap.sorted_empty, fun _ h => (List.not_mem_nil h).elim,
        fun _ h => (List.not_mem_nil h).elim⟩
  | use now => exact ⟨h.graph, h.sorted, h.keys, h.paths⟩
  | enter phase => exact ⟨h.graph, h.sorted, h.keys, h.paths⟩
  | pause isPaused => exact ⟨h.graph, h.sorted, h.keys, h.paths⟩
  | prewarm batch => exact ⟨h.graph, h.sorted, h.keys, h.paths⟩

theorem Reachable.formed {s : Session} (h : s.Reachable) : s.Formed := by
  rcases h with ⟨id, root, source, analyzers, w, now, hsteps⟩
  induction hsteps with
  | refl => exact formed_start id root source analyzers w now
  | tail _ hstep ih => exact ih.step hstep

/-- The pending texts are the overrides, however often a document has been edited. -/
theorem Formed.lastText_eq {s : Session} (h : s.Formed) (q : Path) :
    lastText s.pendingEdits q = s.overrides.get? q := by
  rw [overrides, PathMap.get?_map]
  cases hget : s.pending.get? q with
  | none =>
      refine lastText_eq_none fun e he hsame => ?_
      rcases List.mem_map.mp he with ⟨row, hrow, rfl⟩
      have hkey := Path.same_iff.mpr
        ((Path.same_iff.mp (h.keys row hrow)).trans (Path.same_iff.mp hsame))
      rw [h.sorted.get?_of_mem hrow hkey] at hget
      cases hget
  | some e =>
      rcases PathMap.mem_of_get? hget with ⟨row, hrow, hkey, rfl⟩
      have hsame := Path.same_iff.mpr
        ((Path.same_iff.mp (h.keys row hrow)).symm.trans (Path.same_iff.mp hkey))
      refine lastText_eq_some ⟨row.2, List.mem_map_of_mem hrow, hsame⟩ fun e he hsame' => ?_
      rcases List.mem_map.mp he with ⟨row', hrow', rfl⟩
      have hkey' := Path.same_iff.mpr
        ((Path.same_iff.mp (h.keys row' hrow')).trans (Path.same_iff.mp hsame'))
      rw [h.sorted.get?_of_mem hrow' hkey'] at hget
      exact congrArg PendingEdit.text (Option.some.inj hget)

end Session
end Ripple
