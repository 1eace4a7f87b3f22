import Ripple.Proofs.Workspace.Owner

/-!
# Pending texts and their documents

Pending texts are kept in the order of their paths, one for each place. A text is
staged for the document that its path stands for, and counted to the project of
that document. Whatever is done to the session afterwards, the path goes on to
stand for a document of that project.
-/

namespace Ripple
namespace Session

/-!
# One text for each place
-/

section

variable {s : Session} (h : s.Formed)
include h

theorem Formed.pairwise_before :
    s.pendingEdits.Pairwise fun x y => x.path.Before y.path := by
  unfold pendingEdits PathMap.values
  rw [List.pairwise_map]
  refine h.sorted.imp_of_mem ?_
  intro row other hrow hother hbefore
  rw [Path.Before, ← Path.same_iff.mp (h.keys row hrow), ← Path.same_iff.mp (h.keys other hother)]
  exact hbefore

theorem Formed.pairwise_apart :
    s.pendingEdits.Pairwise fun x y => ¬ x.path.same y.path :=
  h.pairwise_before.imp fun hbefore => hbefore.not_same

theorem Formed.get?_pending {row : Path × PendingEdit} (hrow : row ∈ s.pending.rows) :
    s.pending.get? row.2.path = some row.2 :=
  h.sorted.get?_of_mem hrow (h.keys row hrow)

theorem Formed.pendingText?_eq {x : PendingEdit} (hx : x ∈ s.pendingEdits) :
    s.pendingText? x.path = some x.text := by
  rcases List.mem_map.mp hx with ⟨row, hrow, rfl⟩
  rw [pendingText?, h.get?_pending hrow]
  rfl

theorem Formed.eq_of_same {x y : PendingEdit} (hx : x ∈ s.pendingEdits) (hy : y ∈ s.pendingEdits)
    (hsame : x.path.same y.path) : x = y := by
  rcases List.mem_map.mp hx with ⟨row, hrow, rfl⟩
  rcases List.mem_map.mp hy with ⟨other, hother, rfl⟩
  have hkey : row.1.same other.2.path := Path.same_iff.mpr
    ((Path.same_iff.mp (h.keys row hrow)).trans (Path.same_iff.mp hsame))
  have hget := h.sorted.get?_of_mem hrow hkey
  rw [h.get?_pending hother] at hget
  exact (Option.some.inj hget).symm

/-- Of the texts only those are left whose paths have not been erased. -/
theorem Formed.values_eraseAll (isDone : PendingEdit → Bool) :
    (((s.pendingEdits.filter isDone).map PendingEdit.path).foldl PathMap.erase s.pending).values =
      s.pendingEdits.filter fun x => !isDone x := by
  have hrow : ∀ row ∈ s.pending.rows,
      (∀ p ∈ (s.pendingEdits.filter isDone).map PendingEdit.path, ¬ row.1.same p) ↔
        ¬ isDone row.2 := by
    intro row hrow
    have hmem : row.2 ∈ s.pendingEdits := List.mem_map_of_mem hrow
    constructor
    · intro hnone hdone
      exact hnone _ (List.mem_map_of_mem (List.mem_filter.mpr ⟨hmem, hdone⟩)) (h.keys row hrow)
    · intro hkept p hp hsame
      rcases List.mem_map.mp hp with ⟨x, hx, rfl⟩
      rcases List.mem_filter.mp hx with ⟨hx, hdone⟩
      have heq : row.2 = x := h.eq_of_same hmem hx (Path.same_iff.mpr
        ((Path.same_iff.mp (h.keys row hrow)).symm.trans (Path.same_iff.mp hsame)))
      exact hkept (heq ▸ hdone)
  have hrows : (((s.pendingEdits.filter isDone).map PendingEdit.path).foldl PathMap.erase
      s.pending).rows = s.pending.rows.filter fun row => !isDone row.2 := by
    rw [PathMap.rows_eraseAll]
    apply List.filter_congr
    intro row hmem
    rw [Bool.eq_iff_iff, decide_eq_true_iff, hrow row hmem]
    simp
  rw [PathMap.values, hrows, pendingEdits, PathMap.values, List.filter_map]
  rfl

end

/-!
# The project that a text is counted to
-/

def Counted (s : Session) : Prop :=
  ∀ x ∈ s.pendingEdits, x.path.isAbsolute → ∃ p d,
    s.workspace.document? x.path = some (p, d) ∧ d.path = x.path ∧ p.id = x.project

theorem Counted.stage {s : Session} (h : s.Counted) {path : Path} {p : Project} {d : Document}
    (hfound : s.workspace.document? path = some (p, d)) (text : String) :
    (s.stage ⟨p.id, d.path, text⟩).Counted := by
  intro x hx habsolute
  rcases List.mem_map.mp hx with ⟨row, hrow, rfl⟩
  rcases PathMap.mem_placeRow hrow with ⟨_, hvalue⟩ | hrow
  · rw [hvalue] at habsolute ⊢
    have hsame := (Workspace.mem_documents_of_document? hfound).right.right
    have hkey : (s.workspace.resolve d.path).key = (s.workspace.resolve path).key := by
      rw [Workspace.resolve, if_pos habsolute]
      exact Path.same_iff.mp hsame
    have hfound' : s.workspace.document? d.path = some (p, d) := by
      rw [Workspace.document?_congr hkey]
      exact hfound
    exact ⟨p, d, hfound', rfl, rfl⟩
  · exact h _ (List.mem_map_of_mem hrow) habsolute

theorem Counted.putTexts {s : Session} (h : s.Counted) (texts : Path → Option String) :
    ({ s with workspace := s.workspace.putTexts texts } : Session).Counted := by
  intro x hx habsolute
  rcases h x hx habsolute with ⟨p, d, hfound, hpath, hid⟩
  rcases Workspace.document?_putTexts hfound texts with ⟨ds, hfound'⟩
  exact ⟨_, _, hfound', (Document.path_put texts d).trans hpath, hid⟩

theorem Counted.step {s s' : Session} (h : s.Counted) (hstep : s.Step s') : s'.Counted := by
  cases hstep with
  | stage hstage =>
      rcases stageEdit_eq_ok_iff.mp hstage with ⟨p, d, text, hfound, _, _, rfl⟩
      exact h.stage hfound text
  | @clear path text s' hclear =>
      unfold clearPendingIf at hclear
      split at hclear
      · cases hclear
        intro x hx
        rcases List.mem_map.mp hx with ⟨row, hrow, rfl⟩
        exact h _ (List.mem_map_of_mem (List.mem_filter.mp hrow).left)
      · cases hclear
  | @update path text id s' hupdate =>
      have hs' := s.updateDocument_getD path text
      rw [hupdate] at hs'
      change s' = _ at hs'
      rw [hs', ← Workspace.putTexts_textAt]
      exact h.putTexts _
  | discard => exact fun _ hx => (List.not_mem_nil hx).elim
  | reload w => exact fun _ hx => (List.not_mem_nil hx).elim
  | use now => exact h
  | enter phase => exact h
  | pause isPaused => exact h
  | prewarm batch => exact h

theorem Reachable.counted {s : Session} (h : s.Reachable) : s.Counted := by
  rcases h with ⟨id, root, source, analyzers, w, now, hsteps⟩
  induction hsteps with
  | refl => exact fun _ hx => (List.not_mem_nil hx).elim
  | tail _ hstep ih => exact ih.step hstep

end Session
end Ripple
