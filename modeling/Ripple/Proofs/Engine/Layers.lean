import Ripple.Proofs.Engine.Determined
import Ripple.Proofs.Engine.Partial
import Ripple.Proofs.Store.Files

/-!
# Texts over texts

An edit is applied to the pending text of its document, and to the content of the document
if there is none. So for what is staged it makes no difference whether the texts that were
pending before are still pending or have been folded into the workspace. What differs is
where they are: the later texts take the place of the earlier ones, or come over them when
they are folded in themselves.
-/

namespace Ripple

variable {texts : Path → Option String}

/-!
# Documents found by their own paths
-/

namespace Workspace

variable {w : Workspace} {path : Path}

theorem document?_eq_none_iff :
    w.document? path = none ↔ ∀ d ∈ w.documents, ¬ d.path.same (w.resolve path) := by
  simp only [document?, documents, Project.document?, List.findSome?_eq_none_iff,
    Option.map_eq_none_iff, List.find?_eq_none, List.mem_flatMap]
  constructor
  · intro h d hd
    obtain ⟨p, hp, hd⟩ := hd
    exact h p hp d hd
  · exact fun h p hp d hd => h d ⟨p, hp, hd⟩

theorem document?_putTexts_eq_none (h : w.document? path = none) :
    (w.putTexts texts).document? path = none := by
  rw [document?_eq_none_iff] at h ⊢
  intro d hd
  have hpath : d.path ∈ w.documents.map Document.path := by
    rw [← w.map_path_putTexts]
    exact List.mem_map_of_mem hd
  obtain ⟨d', hd', hsame⟩ := List.mem_map.mp hpath
  exact hsame ▸ h d' hd'

/-- The path is that of the document it stands for. -/
def Leads (w : Workspace) (path : Path) : Prop :=
  ∃ p d, w.document? path = some (p, d) ∧ d.path = path

theorem Leads.exists_document (h : w.Leads path) : ∃ d ∈ w.documents, d.path = path := by
  obtain ⟨p, d, hfound, hpath⟩ := h
  obtain ⟨hp, hd, _⟩ := mem_documents_of_document? hfound
  exact ⟨d, List.mem_flatMap.mpr ⟨p, hp, hd⟩, hpath⟩

theorem leads_of_putTexts (h : (w.putTexts texts).Leads path) : w.Leads path := by
  obtain ⟨p', d', hfound', hpath⟩ := h
  cases hfound : w.document? path with
  | none =>
      rw [document?_putTexts_eq_none hfound] at hfound'
      cases hfound'
  | some found =>
      obtain ⟨ds, hput⟩ := document?_putTexts hfound texts
      rw [hput] at hfound'
      cases hfound'
      exact ⟨found.1, found.2, hfound, (Document.path_put texts found.2).symm.trans hpath⟩

theorem Leads.isAbsolute (h : w.Leads path) (habsolute : ∀ d ∈ w.documents, d.path.isAbsolute) :
    path.isAbsolute := by
  obtain ⟨d, hd, rfl⟩ := h.exists_document
  exact habsolute d hd

/-- One spelling of a place is that of its document. -/
theorem Leads.eq_of_same {path' : Path} (h : w.Leads path) (h' : w.Leads path')
    (habsolute : ∀ d ∈ w.documents, d.path.isAbsolute) (hsame : path.same path') :
    path = path' := by
  have hkey : (w.resolve path).key = (w.resolve path').key := by
    rw [resolve, resolve, if_pos (h.isAbsolute habsolute), if_pos (h'.isAbsolute habsolute)]
    exact Path.same_iff.mp hsame
  obtain ⟨p, d, hfound, hpath⟩ := h
  obtain ⟨p', d', hfound', hpath'⟩ := h'
  rw [document?_congr hkey, hfound'] at hfound
  cases hfound
  exact hpath.symm.trans hpath'

end Workspace

namespace Session

variable {s s' : Session}

/-- Pending texts are kept under the paths of documents. -/
theorem Reachable.leads (h : s.Reachable)
    (habsolute : ∀ d ∈ s.workspace.documents, d.path.isAbsolute) :
    ∀ x ∈ s.pendingEdits, s.workspace.Leads x.path := by
  intro x hx
  obtain ⟨d, hd, hpath⟩ := h.formed.paths x hx
  obtain ⟨p, d, hfound, hpath, _⟩ := h.counted x hx (hpath ▸ habsolute d hd)
  exact ⟨p, d, hfound, hpath⟩

theorem pendingText?_stage (s : Session) (x : PendingEdit) (q : Path) :
    (s.stage x).pendingText? q = if x.path.same q then some x.text else s.pendingText? q := by
  simp only [stage, pendingText?, PathMap.get?_insert]
  split <;> rfl

/-- What is pending is the last text of every place. -/
theorem Formed.lastText_pending (h : s.Formed) (q : Path) :
    lastText s.pendingEdits q = s.pendingText? q := by
  rw [h.lastText_eq, overrides, PathMap.get?_map]
  rfl

/-!
# Staging over pending and over folded texts
-/

/-- What is pending in the first session is what is pending in the second one, over texts
that are not pending there. -/
def Over (texts : Path → Option String) (s s' : Session) : Prop :=
  ∀ q, s.pendingText? q = (s'.pendingText? q).or (texts q)

theorem Over.stage (h : s.Over texts s') (x : PendingEdit) :
    (s.stage x).Over texts (s'.stage x) := by
  intro q
  rw [pendingText?_stage, pendingText?_stage, h q]
  split <;> rfl

/-- The text that an edit is applied to is the same. -/
theorem Over.base_eq (h : s.Over texts s') (d : Document) :
    (s'.pendingText? d.path).getD (d.put texts).content =
      (s.pendingText? d.path).getD d.content := by
  rw [h d.path, Document.put]
  cases s'.pendingText? d.path <;> cases texts d.path <;> rfl

/-- With the texts in the workspace an edit is refused or staged as it is with the texts
pending. -/
theorem Over.stageEdit (h : s.Over texts s') (w : Workspace) (edit : DocumentEdit) :
    (∃ e, s.stageEdit w edit = .error e ∧ s'.stageEdit (w.putTexts texts) edit = .error e) ∨
      ∃ p t t', s.stageEdit w edit = .ok (p, t) ∧
        s'.stageEdit (w.putTexts texts) edit = .ok (p, t') ∧ t.Over texts t' := by
  unfold Session.stageEdit
  cases hfound : w.document? edit.file with
  | none =>
      rw [Workspace.document?_putTexts_eq_none hfound]
      exact .inl ⟨_, rfl, rfl⟩
  | some found =>
      obtain ⟨ds, hput⟩ := Workspace.document?_putTexts hfound texts
      rw [hput]
      simp only [Document.path_put, h.base_eq]
      cases Change.applyAll ((s.pendingText? found.2.path).getD found.2.content) edit.changes with
      | error refusal => exact .inl ⟨_, rfl, rfl⟩
      | ok text => exact .inr ⟨_, _, _, rfl, rfl, h.stage _⟩

theorem Over.stageAll (h : s.Over texts s') (w : Workspace) (edits : List DocumentEdit) :
    (Engine.stageAll (w.putTexts texts) edits s').1 = (Engine.stageAll w edits s).1 ∧
      (Engine.stageAll w edits s).2.Over texts (Engine.stageAll (w.putTexts texts) edits s').2 := by
  induction edits generalizing s s' with
  | nil => exact ⟨rfl, h⟩
  | cons edit rest ih =>
      unfold Engine.stageAll
      rcases h.stageEdit w edit with ⟨e, he, he'⟩ | ⟨p, t, t', ht, ht', hover⟩
      · rw [he, he']
        exact ⟨congrArg (⟨edit.file, none, some e⟩ :: ·) (ih h).left, (ih h).right⟩
      · rw [ht, ht']
        exact ⟨congrArg (⟨edit.file, some p, none⟩ :: ·) (ih hover).left, (ih hover).right⟩

/-- The session once a batch is staged. -/
def staged (s : Session) (edits : List DocumentEdit) : Session :=
  (Engine.stageAll s.workspace edits s).2

theorem workspace_stageAll (w : Workspace) (edits : List DocumentEdit) (s : Session) :
    (Engine.stageAll w edits s).2.workspace = s.workspace :=
  (Engine.akin_stageAll w edits s).workspace

theorem id_stageAll (w : Workspace) (edits : List DocumentEdit) (s : Session) :
    (Engine.stageAll w edits s).2.id = s.id := by
  induction edits generalizing s with
  | nil => rfl
  | cons edit rest ih =>
      unfold Engine.stageAll
      cases hedit : s.stageEdit w edit with
      | error e => exact ih s
      | ok staged =>
          obtain ⟨p, d, text, _, _, _, heq⟩ := stageEdit_eq_ok_iff.mp hedit
          have hid : staged.2.id = s.id := by
            rw [heq]
            rfl
          exact (ih staged.2).trans hid

theorem workspace_staged (s : Session) (edits : List DocumentEdit) :
    (s.staged edits).workspace = s.workspace :=
  workspace_stageAll _ _ _

theorem Reachable.stageAll (h : s.Reachable) {w : Workspace} (hw : s.workspace = w)
    (edits : List DocumentEdit) : (Engine.stageAll w edits s).2.Reachable := by
  induction edits generalizing s with
  | nil => exact h
  | cons edit rest ih =>
      unfold Engine.stageAll
      cases hedit : s.stageEdit w edit with
      | error e => exact ih h hw
      | ok staged =>
          obtain ⟨p, d, text, _, _, _, heq⟩ := stageEdit_eq_ok_iff.mp hedit
          refine ih (h.step (.stage (hw ▸ hedit))) ?_
          rw [heq]
          exact hw

theorem Reachable.staged (h : s.Reachable) (edits : List DocumentEdit) :
    (s.staged edits).Reachable :=
  h.stageAll rfl edits

/-!
# Folding all pending texts
-/

/-- The session once all of its pending texts are written. -/
def folded (s : Session) : Session :=
  s.pendingEdits.foldl settle s

theorem Reachable.settle (h : s.Reachable) (x : PendingEdit) : (s.settle x).Reachable := by
  have hcleared : ((s.clearPendingIf x.path x.text).getD s).Reachable := by
    cases hclear : s.clearPendingIf x.path x.text with
    | none => exact h
    | some t => exact h.step (.clear hclear)
  unfold Session.settle
  generalize (s.clearPendingIf x.path x.text).getD s = cleared at *
  simp only
  cases hupdate : cleared.updateDocument x.path x.text with
  | none => exact hcleared
  | some found => exact hcleared.step (.update hupdate)

theorem Reachable.folded (h : s.Reachable) : s.folded.Reachable := by
  unfold Session.folded
  generalize s.pendingEdits = edits
  induction edits generalizing s with
  | nil => exact h
  | cons x edits ih => exact ih (h.settle x)

theorem foldl_settle {edits : List PendingEdit}
    (hpending : ∀ x ∈ edits, s.pendingText? x.path = some x.text)
    (hapart : edits.Pairwise fun x y => ¬ x.path.same y.path) :
    edits.foldl settle s = { s with
      workspace := s.workspace.commitAll edits
      pending := (edits.map PendingEdit.path).foldl PathMap.erase s.pending } := by
  induction edits generalizing s with
  | nil => rfl
  | cons x edits ih =>
      obtain ⟨hx, hedits⟩ := List.forall_mem_cons.mp hpending
      obtain ⟨hfirst, hapart⟩ := List.pairwise_cons.mp hapart
      rw [List.foldl_cons, Engine.settle_eq hx, ih ?_ hapart]
      · rfl
      · intro y hy
        rw [pendingText?, PathMap.get?_erase, if_neg (hfirst y hy)]
        exact hedits y hy

/-- Folding gives the pending texts to the workspace, and leaves none. -/
theorem Formed.folded_eq (h : s.Formed)
    (habsolute : ∀ d ∈ s.workspace.documents, d.path.isAbsolute) :
    s.folded = { s with workspace := s.workspace.putTexts s.pendingText?, pending := ∅ } := by
  have hall : s.pendingEdits.filter (fun _ => true) = s.pendingEdits :=
    List.filter_eq_self.mpr fun _ _ => rfl
  have hvalues := h.values_eraseAll fun _ => true
  rw [hall, List.filter_eq_nil_iff.mpr (by simp)] at hvalues
  have hpending : (s.pendingEdits.map PendingEdit.path).foldl PathMap.erase s.pending = ∅ := by
    generalize (s.pendingEdits.map PendingEdit.path).foldl PathMap.erase s.pending = m at hvalues
    obtain ⟨rows⟩ := m
    cases List.map_eq_nil_iff.mp hvalues
    rfl
  have hworkspace : s.workspace.commitAll s.pendingEdits =
      s.workspace.putTexts s.pendingText? := by
    rw [Workspace.commitAll_eq, funext h.lastText_pending]
    intro x hx
    obtain ⟨d, hd, hpath⟩ := h.paths x hx
    exact hpath ▸ habsolute d hd
  rw [folded, foldl_settle (fun x hx => h.pendingText?_eq hx) h.pairwise_apart, hpending,
    hworkspace]

/-!
# Two batches
-/

theorem absolute_staged (habsolute : ∀ d ∈ s.workspace.documents, d.path.isAbsolute)
    (edits : List DocumentEdit) :
    ∀ d ∈ (s.staged edits).workspace.documents, d.path.isAbsolute :=
  s.workspace_staged edits ▸ habsolute

section

variable (hreachable : s.Reachable)
  (habsolute : ∀ d ∈ s.workspace.documents, d.path.isAbsolute) (edits : List DocumentEdit)
include hreachable habsolute

theorem leads_staged : ∀ x ∈ (s.staged edits).pendingEdits, s.workspace.Leads x.path := by
  have hleads := (hreachable.staged edits).leads (absolute_staged habsolute edits)
  rwa [workspace_staged] at hleads

/-- A batch comes to the same on top of texts that are pending and that have been folded. -/
theorem staged_folded :
    (Engine.stageAll s.folded.workspace edits s.folded).1 =
        (Engine.stageAll s.workspace edits s).1 ∧
      (s.staged edits).Over s.pendingText? (s.folded.staged edits) := by
  have hover : s.Over s.pendingText? s.folded := by
    intro q
    rw [hreachable.formed.folded_eq habsolute]
    rfl
  have hworkspace : s.folded.workspace = s.workspace.putTexts s.pendingText? := by
    rw [hreachable.formed.folded_eq habsolute]
  unfold staged
  rw [hworkspace]
  exact hover.stageAll s.workspace edits

theorem absolute_folded : ∀ d ∈ s.folded.workspace.documents, d.path.isAbsolute := by
  rw [hreachable.formed.folded_eq habsolute]
  intro d hd
  have hpath : d.path ∈ s.workspace.documents.map Document.path := by
    rw [← s.workspace.map_path_putTexts]
    exact List.mem_map_of_mem hd
  obtain ⟨d', hd', hsame⟩ := List.mem_map.mp hpath
  exact hsame ▸ habsolute d' hd'

/-- The sessions are alike in the end. -/
theorem like_folded_staged :
    (s.staged edits).folded.Like (s.folded.staged edits).folded := by
  have hover := (staged_folded hreachable habsolute edits).right
  have hfirst := hreachable.formed.folded_eq habsolute
  have hfolded := (hreachable.folded.staged edits).formed.folded_eq
    (absolute_staged (absolute_folded hreachable habsolute) edits)
  have hstaged := (hreachable.staged edits).formed.folded_eq (absolute_staged habsolute edits)
  have hworkspace : (s.folded.staged edits).folded.workspace =
      (s.staged edits).folded.workspace := by
    rw [hfolded, hstaged]
    simp only [workspace_staged]
    rw [hfirst] at hover ⊢
    rw [Workspace.putTexts_putTexts]
    congr 1
    funext q
    exact (hover q).symm
  have hbefore := Engine.akin_stageAll s.workspace edits s
  have hafter := Engine.akin_stageAll s.folded.workspace edits s.folded
  rw [hfolded, hstaged] at hworkspace ⊢
  refine ⟨⟨?_, ?_, ?_, hworkspace, ?_⟩, rfl⟩
  · exact (hafter.root.trans (congrArg root hfirst)).trans hbefore.root.symm
  · exact (hafter.source.trans (congrArg source hfirst)).trans hbefore.source.symm
  · exact (hafter.analyzers.trans (congrArg analyzers hfirst)).trans hbefore.analyzers.symm
  · exact (hafter.graph.trans (congrArg graph hfirst)).trans hbefore.graph.symm

/-- The last texts that are written are the same. -/
theorem lastText_folded_staged (q : Path) :
    lastText (s.pendingEdits ++ (s.folded.staged edits).pendingEdits) q =
      lastText (s.staged edits).pendingEdits q := by
  rw [lastText_append, hreachable.formed.lastText_pending,
    (hreachable.folded.staged edits).formed.lastText_pending,
    (hreachable.staged edits).formed.lastText_pending]
  exact ((staged_folded hreachable habsolute edits).right q).symm

theorem leads_folded_staged :
    ∀ x ∈ (s.folded.staged edits).pendingEdits, s.workspace.Leads x.path := by
  intro x hx
  have hleads := leads_staged hreachable.folded (absolute_folded hreachable habsolute) edits x hx
  rw [hreachable.formed.folded_eq habsolute] at hleads
  exact Workspace.leads_of_putTexts hleads

end

end Session
end Ripple
