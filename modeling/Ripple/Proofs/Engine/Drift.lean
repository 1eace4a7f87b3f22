import Ripple.Proofs.Engine.Preview
import Ripple.Proofs.Engine.Stages
import Ripple.Proofs.Workspace.Owner

/-!
# A commit beside a reload

While a commit writes a file, the file may be read again, or all of the workspace may
be loaded anew. What each of the two folds into the session it has found out or written
before, so an older text may take the place of a newer one. This does not happen if
neither of them gets in between what the other does to the file and its fold.
-/

namespace Ripple

open Cache

variable {σ π : Type}

/-!
# The content at a path
-/

namespace Workspace

variable {w : Workspace} {q path : Path} {text : String}

/-- The content of the document that is found at a path. -/
def content? (w : Workspace) (q : Path) : Option String :=
  (w.document? q).map fun found => found.2.content

theorem document?_putTexts_of_none (h : w.document? q = none) (texts : Path → Option String) :
    (w.putTexts texts).document? q = none := by
  rw [Option.eq_none_iff_forall_ne_some]
  rintro ⟨p, d⟩ hfound
  rcases mem_documents_of_document? hfound with ⟨hp, hd, hsame⟩
  have hmem : d.path ∈ (w.putTexts texts).documents.map Document.path :=
    List.mem_map_of_mem (List.mem_flatMap.mpr ⟨p, hp, hd⟩)
  rw [map_path_putTexts] at hmem
  rcases List.mem_map.mp hmem with ⟨d', hd', hpath⟩
  rcases List.mem_flatMap.mp hd' with ⟨p', hp', hd'⟩
  have hnone := List.findSome?_eq_none_iff.mp h p' hp'
  rw [Option.map_eq_none_iff, Project.document?, List.find?_eq_none] at hnone
  exact hnone d' hd' (hpath ▸ hsame)

/-- A text that is folded in is the content at its path and leaves all others alone. -/
theorem content?_setContent? (hpath : path.isAbsolute) (hq : q.isAbsolute) :
    ((w.setContent? path text).getD w).content? q =
      if path.same q then (w.content? q).map fun _ => text else w.content? q := by
  rw [← putTexts_textAt]
  simp only [content?]
  cases hfound : w.document? q with
  | none =>
      rw [document?_putTexts_of_none hfound]
      split <;> rfl
  | some found =>
      rcases found with ⟨p, d⟩
      rcases document?_putTexts hfound (textAt (w.resolve path) text) with ⟨ds, hput⟩
      rcases mem_documents_of_document? hfound with ⟨_, _, hsame⟩
      rw [resolve, if_pos hq] at hsame
      have hkey : d.path.key = q.key := Path.same_iff.mp hsame
      have htext : textAt (w.resolve path) text d.path = if path.same q then some text else none := by
        rw [textAt, resolve, if_pos hpath]
        simp only [Path.same, hkey]
        rfl
      rw [hput]
      simp only [Option.map_some, Document.put, htext]
      by_cases hpq : path.same q
      · simp only [if_pos hpq]
      · simp only [if_neg hpq]

end Workspace

namespace Session

variable {s : Session} {q path : Path}

theorem content?_update (hpath : path.isAbsolute) (hq : q.isAbsolute) (text : String) :
    (((s.updateDocument path text).map Prod.snd).getD s).workspace.content? q =
      if path.same q then (s.workspace.content? q).map fun _ => text
      else s.workspace.content? q := by
  rw [updateDocument_getD]
  exact Workspace.content?_setContent? hpath hq

theorem content?_settle {edit : PendingEdit} (hpath : edit.path.isAbsolute) (hq : q.isAbsolute) :
    (s.settle edit).workspace.content? q =
      if edit.path.same q then (s.workspace.content? q).map fun _ => edit.text
      else s.workspace.content? q := by
  rw [workspace_settle]
  exact Workspace.content?_setContent? hpath hq

end Session

/-!
# Stores that are what workspaces are loaded from
-/

namespace Store

/-- As far as a path goes, what is written is what is read, and workspaces are loaded as
the files are. -/
structure Mirrors (st : Store σ) (q : Path) : Prop where
  stored : ∀ m text m', st.write m q text = (.ok (), m') → st.read m' q = .ok text
  refused : ∀ m text e m', st.write m q text = (.error e, m') → st.read m' q = st.read m q
  kept : ∀ m source root, st.read (st.load m source root).2 q = st.read m q
  loaded : ∀ m source root w, (st.load m source root).1 = .ok w →
    ∀ text, w.content? q = some text → st.read m q = .ok text

/-- A path leads to another file. -/
def Spares (st : Store σ) (path q : Path) : Prop :=
  ¬ path.same q ∧ ∀ m text, st.read (st.write m path text).2 q = st.read m q

end Store

namespace Engine

/-!
# Two operations side by side
-/

namespace Stage

/-- The text that is written to a path and has yet to be folded into the session. -/
def owes? (q : Path) : Stage → Option String
  | .folding edit _ _ => if edit.path = q then some edit.text else none
  | _ => none

/-- The operation has not been started. -/
def isAsked : Stage → Bool
  | .asked _ => true
  | _ => false

/-- A document or a workspace has been read, and has yet to be folded into the session. -/
def isHolding : Stage → Bool
  | .updating _ _ _ | .replacing _ => true
  | _ => false

/-- The operation is through, without an error. -/
def hasAnswered : Stage → Bool
  | .answered _ => true
  | _ => false

end Stage

/-- An engine, a commit and another operation on the same session. -/
structure Overlap (σ π : Type) where
  engine : Engine σ π
  commit : Stage
  other : Stage

namespace Overlap

variable {sv : Services σ π} {id : SessionId} {q : Path}

/-- Either of the two goes on, or work goes on in the background. The store may have been
changed from outside before the other operation starts. -/
inductive Step (sv : Services σ π) (id : SessionId) (o : Overlap σ π) : Overlap σ π → Prop where
  | commit : Step sv id o
      { o with
        commit := (o.commit.advance sv id o.engine).1
        engine := (o.commit.advance sv id o.engine).2 }
  | other : Step sv id o
      { o with
        other := (o.other.advance sv id o.engine).1
        engine := (o.other.advance sv id o.engine).2 }
  | background (schedule : Schedule π) :
      Step sv id o { o with engine := { o.engine with schedule := schedule } }
  | outside {d : Demand} (hasked : o.other = .asked d) (store : σ) :
      Step sv id o { o with engine := { o.engine with store := store } }

/-- The other operation starts between a write and its fold, or a file is written between
its reading and its fold. -/
def Clashes (q : Path) (o o' : Overlap σ π) : Prop :=
  ((o.commit.owes? q).isSome ∧ o.other.isAsked ∧ ¬ o'.other.isAsked) ∨
    (o.other.isHolding ∧ o.commit.owes? q = none ∧ (o'.commit.owes? q).isSome)

instance (q : Path) (o o' : Overlap σ π) : Decidable (Clashes q o o') :=
  inferInstanceAs (Decidable (_ ∨ _))

/-!
# The invariant
-/

/-- A pending text is for the path, or it has nothing to do with it. -/
def Plain (sv : Services σ π) (q : Path) (edit : PendingEdit) : Prop :=
  edit.path.isAbsolute ∧ (edit.path = q ∨ sv.store.Spares edit.path q)

/-- How far the commit may be. -/
def SoundCommit (sv : Services σ π) (q : Path) (s : Session) : Stage → Prop
  | .asked .commit => ∀ edit ∈ s.pendingEdits, Plain sv q edit
  | .writing left _ => ∀ edit ∈ left, Plain sv q edit
  | .folding edit left _ => Plain sv q edit ∧ ∀ edit ∈ left, Plain sv q edit
  | .answered _ => True
  | _ => False

/-- The content at the path is that of its file. -/
def Synced (sv : Services σ π) (q : Path) (w : Workspace) (store : σ) : Prop :=
  ∀ text, w.content? q = some text → sv.store.read store q = .ok text

/-- How far the other operation may be, with what it knows of the file. The text that the
commit owes makes up for what the session does not have yet. -/
def SoundOther (sv : Services σ π) (q : Path) (s : Session) (store : σ)
    (owed? : Option String) : Stage → Prop
  | .asked d => d = .reload q ∨ d = .refresh
  | .reading path _ known => path = q ∧
      (owed? = none → s.workspace.content? q = some known ∨ Synced sv q s.workspace store)
  | .updating path _ content => path = q ∧ sv.store.read store q = .ok content
  | .loading _ _ => True
  | .replacing w => Synced sv q w store
  | .answered _ => owed? = none → Synced sv q s.workspace store
  | .failed _ => True
  | _ => False

/-- Once the other operation is under way, what the commit owes is what the file has. -/
structure Sound (sv : Services σ π) (id : SessionId) (q : Path) (s : Session)
    (o : Overlap σ π) : Prop where
  session : o.engine.sessions.get? id = some s
  keyed : s.id = id
  commit : SoundCommit sv q s o.commit
  other : SoundOther sv q s o.engine.store (o.commit.owes? q) o.other
  fresh : ¬ o.other.isAsked → ∀ text, o.commit.owes? q = some text →
    sv.store.read o.engine.store q = .ok text

variable {s : Session} {o o' : Overlap σ π}

/-!
# The commit goes on
-/

variable {e : Engine σ π} {other : Stage} {edit : PendingEdit} {left : List PendingEdit}
  {report : CommitReport}

theorem Sound.commit_asked (h : Sound sv id q s ⟨e, .asked .commit, other⟩) :
    ∃ s', Sound sv id q s' ⟨(Stage.advance sv id (.asked .commit) e).2,
      (Stage.advance sv id (.asked .commit) e).1, other⟩ := by
  rw [advance_of_returns (step_commit h.session)]
  exact ⟨{ s with lastAccess := e.clock }, get?_setSession h.keyed, h.keyed, h.commit, h.other,
    nofun⟩

/-- Nothing has been done to the file or to the content at its path. -/
theorem SoundOther.unmoved {s' : Session} {store store' : σ} {owed? : Option String}
    (h : SoundOther sv q s store owed? other)
    (hread : sv.store.read store' q = sv.store.read store q)
    (hcontent : s'.workspace.content? q = s.workspace.content? q) :
    SoundOther sv q s' store' owed? other := by
  cases other <;> simp only [SoundOther, Synced, hread, hcontent] at h ⊢ <;> exact h

/-- The file has been written, so the commit has its text to fold in. -/
theorem SoundOther.written {store store' : σ} (h : SoundOther sv q s store none other)
    (hholding : ¬ other.isHolding) (text : String) :
    SoundOther sv q s store' (some text) other := by
  cases other with
  | asked d => exact h
  | reading path p known => exact ⟨h.left, nofun⟩
  | loading source root => trivial
  | answered answer => exact nofun
  | failed halt => trivial
  | updating path p content => exact absurd rfl hholding
  | replacing w => exact absurd rfl hholding
  | writing left report => cases h
  | folding edit left report => cases h

/-- The commit has folded its text in, and the file still has it. -/
theorem SoundOther.folded {s' : Session} {store : σ} {owed? : Option String}
    (h : SoundOther sv q s store owed? other)
    (hsynced : ¬ other.isAsked → Synced sv q s'.workspace store) :
    SoundOther sv q s' store none other := by
  cases other with
  | asked d => exact h
  | reading path p known => exact ⟨h.left, fun _ => .inr (hsynced nofun)⟩
  | loading source root => trivial
  | answered answer => exact fun _ => hsynced nofun
  | failed halt => trivial
  | updating path p content => exact h
  | replacing w => exact h
  | writing left report => cases h
  | folding edit left report => cases h

theorem Spares.ne {path : Path} (h : sv.store.Spares path q) : path ≠ q := by
  rintro rfl
  exact h.left (Path.same_iff.mpr rfl)

theorem Sound.commit_writing (hstore : sv.store.Mirrors q)
    (h : Sound sv id q s ⟨e, .writing (edit :: left) report, other⟩)
    (hclash : ¬ Clashes q ⟨e, .writing (edit :: left) report, other⟩
      ⟨(Stage.advance sv id (.writing (edit :: left) report) e).2,
        (Stage.advance sv id (.writing (edit :: left) report) e).1, other⟩) :
    Sound sv id q s ⟨(Stage.advance sv id (.writing (edit :: left) report) e).2,
      (Stage.advance sv id (.writing (edit :: left) report) e).1, other⟩ := by
  rcases List.forall_mem_cons.mp h.commit with ⟨hplain, hleft⟩
  rcases hwrite : sv.store.write e.store edit.path edit.text with ⟨cause | _, store⟩
  · have hread : sv.store.read store q = sv.store.read e.store q := by
      rcases hplain.right with hpath | hspares
      · exact hstore.refused _ _ _ _ (hpath ▸ hwrite)
      · rw [← hspares.right e.store edit.text, hwrite]
    rw [advance_of_returns (step_refused hwrite left report)]
    exact ⟨h.session, h.keyed, hleft, h.other.unmoved hread rfl, nofun⟩
  · rw [advance_of_returns (step_written hwrite left report)] at hclash ⊢
    by_cases hpath : edit.path = q
    · have howes : (Stage.folding edit left report).owes? q = some edit.text := if_pos hpath
      have hread : sv.store.read store q = .ok edit.text :=
        hstore.stored _ _ _ (hpath ▸ hwrite)
      have hholding : ¬ other.isHolding := fun hholding =>
        hclash (.inr ⟨hholding, rfl, Option.isSome_iff_exists.mpr ⟨_, howes⟩⟩)
      refine ⟨h.session, h.keyed, ⟨hplain, hleft⟩, ?_, fun _ text htext => ?_⟩
      · exact howes ▸ h.other.written hholding edit.text
      · cases howes.symm.trans htext
        exact hread
    · have howes : (Stage.folding edit left report).owes? q = none := if_neg hpath
      have hspares : sv.store.Spares edit.path q := hplain.right.resolve_left hpath
      have hread : sv.store.read store q = sv.store.read e.store q := by
        rw [← hspares.right e.store edit.text, hwrite]
      refine ⟨h.session, h.keyed, ⟨hplain, hleft⟩, ?_, fun _ text htext => ?_⟩
      · exact howes ▸ h.other.unmoved hread rfl
      · cases howes.symm.trans htext

theorem Sound.commit_folding (hq : q.isAbsolute)
    (h : Sound sv id q s ⟨e, .folding edit left report, other⟩) :
    Sound sv id q (s.settle edit) ⟨(Stage.advance sv id (.folding edit left report) e).2,
      (Stage.advance sv id (.folding edit left report) e).1, other⟩ := by
  rcases h.commit with ⟨hplain, hleft⟩
  have hcontent := s.content?_settle hplain.left hq
  have hkeyed : (s.settle edit).id = id := (s.alike_settle edit).id.trans h.keyed
  rw [advance_of_returns (step_folding h.session edit left report)]
  refine ⟨get?_setSession hkeyed, hkeyed, hleft, ?_, nofun⟩
  by_cases hpath : edit.path = q
  · refine h.other.folded fun hstarted text htext => ?_
    rw [if_pos (hpath ▸ Path.same_iff.mpr rfl)] at hcontent
    rw [hcontent] at htext
    rcases Option.map_eq_some_iff.mp htext with ⟨_, _, rfl⟩
    exact h.fresh hstarted _ (if_pos hpath)
  · have howes : (Stage.folding edit left report).owes? q = none := if_neg hpath
    rw [if_neg (hplain.right.resolve_left hpath).left] at hcontent
    exact (howes ▸ h.other).unmoved rfl hcontent

theorem Sound.commit_conclude (h : Sound sv id q s ⟨e, .writing [] report, other⟩) :
    ∃ s', Sound sv id q s' ⟨(Stage.advance sv id (.writing [] report) e).2,
      (Stage.advance sv id (.writing [] report) e).1, other⟩ := by
  rw [advance_of_returns (step_conclude h.session report)]
  split
  · exact ⟨{ s with phase := .committed }, get?_setSession h.keyed, h.keyed, trivial, h.other, nofun⟩
  · exact ⟨s, h.session, h.keyed, trivial, h.other, nofun⟩

theorem Sound.commit_step (h : Sound sv id q s o) (hstore : sv.store.Mirrors q)
    (hq : q.isAbsolute)
    (hclash : ¬ Clashes q o { o with
      commit := (o.commit.advance sv id o.engine).1
      engine := (o.commit.advance sv id o.engine).2 }) :
    ∃ s', Sound sv id q s' { o with
      commit := (o.commit.advance sv id o.engine).1
      engine := (o.commit.advance sv id o.engine).2 } := by
  rcases o with ⟨e, stage, other⟩
  have hcommit := h.commit
  cases stage with
  | asked d =>
      cases d with
      | commit => exact h.commit_asked
      | _ => cases hcommit
  | writing left report =>
      cases left with
      | nil => exact h.commit_conclude
      | cons edit left => exact ⟨s, h.commit_writing hstore hclash⟩
  | folding edit left report => exact ⟨_, h.commit_folding hq⟩
  | answered answer => exact ⟨s, h⟩
  | _ => cases hcommit

/-!
# The other operation goes on
-/

variable {commit : Stage}

theorem SoundCommit.of_subset {s' : Session} (h : SoundCommit sv q s commit)
    (hsubset : ∀ edit ∈ s'.pendingEdits, edit ∈ s.pendingEdits) : SoundCommit sv q s' commit := by
  cases commit with
  | asked d =>
      cases d with
      | commit => exact fun edit hedit => h edit (hsubset edit hedit)
      | _ => cases h
  | _ => exact h

/-- Nothing is owed where the other operation starts. -/
theorem owes?_of_starts {d : Demand} {e' : Engine σ π} {other' : Stage}
    (hclash : ¬ Clashes q ⟨e, commit, .asked d⟩ ⟨e', commit, other'⟩)
    (hstarts : ¬ other'.isAsked) : commit.owes? q = none := by
  rw [← Option.not_isSome_iff_eq_none]
  exact fun howes => hclash (.inl ⟨howes, rfl, hstarts⟩)

theorem Sound.failed (h : Sound sv id q s ⟨e, commit, other⟩) (e' : Engine σ π)
    (hsession : e'.sessions.get? id = some s) (hother : ¬ other.isAsked ∨ commit.owes? q = none)
    (hread : sv.store.read e'.store q = sv.store.read e.store q) (halt : Halt) :
    Sound sv id q s ⟨e', commit, .failed halt⟩ := by
  refine ⟨hsession, h.keyed, h.commit, trivial, fun _ text htext => ?_⟩
  rcases hother with hstarted | hnone
  · exact hread.trans (h.fresh hstarted text htext)
  · cases hnone.symm.trans htext

theorem Sound.other_reload (hq : q.isAbsolute)
    (h : Sound sv id q s ⟨e, commit, .asked (.reload q)⟩)
    (hclash : ¬ Clashes q ⟨e, commit, .asked (.reload q)⟩
      ⟨(Stage.advance sv id (.asked (.reload q)) e).2, commit,
        (Stage.advance sv id (.asked (.reload q)) e).1⟩) :
    Sound sv id q s ⟨(Stage.advance sv id (.asked (.reload q)) e).2, commit,
      (Stage.advance sv id (.asked (.reload q)) e).1⟩ := by
  have hresolve : s.workspace.resolve q = q := if_pos hq
  cases hfound : s.workspace.document? (s.workspace.resolve q) with
  | none =>
      rw [advance_of_error (step_missing h.session hfound)] at hclash ⊢
      exact h.failed e h.session (.inr (owes?_of_starts hclash Bool.false_ne_true)) rfl _
  | some found =>
      rw [advance_of_returns (step_found h.session hfound)] at hclash ⊢
      have hnone := owes?_of_starts hclash Bool.false_ne_true
      rw [hresolve] at hfound ⊢
      refine ⟨h.session, h.keyed, h.commit, ⟨rfl, fun _ => .inl ?_⟩, fun _ text htext => ?_⟩
      · rw [Workspace.content?, hfound]
        rfl
      · cases hnone.symm.trans htext

theorem Sound.other_refresh (h : Sound sv id q s ⟨e, commit, .asked .refresh⟩)
    (hclash : ¬ Clashes q ⟨e, commit, .asked .refresh⟩
      ⟨(Stage.advance sv id (.asked .refresh) e).2, commit,
        (Stage.advance sv id (.asked .refresh) e).1⟩) :
    ∃ s', Sound sv id q s' ⟨(Stage.advance sv id (.asked .refresh) e).2, commit,
      (Stage.advance sv id (.asked .refresh) e).1⟩ := by
  rw [advance_of_returns (step_refresh h.session)] at hclash ⊢
  have hnone := owes?_of_starts hclash Bool.false_ne_true
  refine ⟨{ s with lastAccess := e.clock }, get?_setSession h.keyed, h.keyed,
    h.commit.of_subset fun _ hedit => hedit, trivial, fun _ text htext => ?_⟩
  cases hnone.symm.trans htext

theorem Sound.other_reading {p : ProjectId} {known : String}
    (h : Sound sv id q s ⟨e, commit, .reading q p known⟩) :
    Sound sv id q s ⟨(Stage.advance sv id (.reading q p known) e).2, commit,
      (Stage.advance sv id (.reading q p known) e).1⟩ := by
  cases hread : sv.store.read e.store q with
  | error cause =>
      rw [advance_of_error (step_unreadable hread p known)]
      exact h.failed e h.session (.inl nofun) rfl _
  | ok content =>
      rw [advance_of_returns (step_read hread p known)]
      have hfresh := h.fresh nofun
      split
      · rename_i hsame
        refine ⟨h.session, h.keyed, h.commit, fun hnone text htext => ?_, fun _ => hfresh⟩
        rcases h.other.right hnone with hknown | hsynced
        · cases hknown.symm.trans htext
          exact hsame ▸ hread
        · exact hsynced text htext
      · exact ⟨h.session, h.keyed, h.commit, ⟨rfl, hread⟩, fun _ => hfresh⟩

theorem Sound.other_updating (hq : q.isAbsolute) {p : ProjectId} {content : String}
    (h : Sound sv id q s ⟨e, commit, .updating q p content⟩) :
    ∃ s', Sound sv id q s' ⟨(Stage.advance sv id (.updating q p content) e).2, commit,
      (Stage.advance sv id (.updating q p content) e).1⟩ := by
  have hcontent := s.content?_update hq hq content
  rw [if_pos (Path.same_iff.mpr rfl)] at hcontent
  have hkeyed : (((s.updateDocument q content).map Prod.snd).getD s).id = id := by
    rw [Session.updateDocument_getD]
    exact h.keyed
  have hpending : (((s.updateDocument q content).map Prod.snd).getD s).pendingEdits =
      s.pendingEdits := by
    rw [Session.updateDocument_getD]
    rfl
  rw [advance_of_returns (step_updating h.session q p content)]
  refine ⟨_, get?_setSession hkeyed, hkeyed, h.commit.of_subset fun _ hedit => hpending ▸ hedit,
    fun _ text htext => ?_, fun _ => h.fresh nofun⟩
  rw [hcontent] at htext
  rcases Option.map_eq_some_iff.mp htext with ⟨_, _, rfl⟩
  exact h.other.right

theorem Sound.other_loading (hstore : sv.store.Mirrors q) {source : Source} {root : Path}
    (h : Sound sv id q s ⟨e, commit, .loading source root⟩) :
    Sound sv id q s ⟨(Stage.advance sv id (.loading source root) e).2, commit,
      (Stage.advance sv id (.loading source root) e).1⟩ := by
  have hkept := hstore.kept e.store source root
  rcases hload : sv.store.load e.store source root with ⟨cause | w, store⟩
  · rw [hload] at hkept
    rw [advance_of_error (step_unloadable hload)]
    exact h.failed { e with store := store } h.session (.inl nofun) hkept _
  · rw [hload] at hkept
    rw [advance_of_returns (step_loaded hload)]
    refine ⟨h.session, h.keyed, h.commit, fun text htext => ?_, fun _ text htext => ?_⟩
    · exact hkept.trans (hstore.loaded _ _ _ _ (congrArg Prod.fst hload) text htext)
    · exact hkept.trans (h.fresh nofun text htext)

theorem Sound.other_replacing {w : Workspace}
    (h : Sound sv id q s ⟨e, commit, .replacing w⟩) :
    ∃ s', Sound sv id q s' ⟨(Stage.advance sv id (.replacing w) e).2, commit,
      (Stage.advance sv id (.replacing w) e).1⟩ := by
  rw [advance_of_returns (step_replacing h.session w)]
  have hput : (replacing id e s w).sessions.get? id = some (renewed s w) := get?_setSession h.keyed
  rcases get?_prewarm hput h.keyed with ⟨batch, hbatch⟩
  have hrests := rests_replacing id e s w
  refine ⟨{ renewed s w with prewarm := batch }, hbatch, h.keyed, h.commit.of_subset nofun,
    fun _ text htext => ?_, fun _ text htext => ?_⟩
  · exact (congrArg (sv.store.read · q) hrests.left).trans (h.other text htext)
  · exact (congrArg (sv.store.read · q) hrests.left).trans (h.fresh nofun text htext)

theorem Sound.other_step (h : Sound sv id q s o) (hstore : sv.store.Mirrors q)
    (hq : q.isAbsolute)
    (hclash : ¬ Clashes q o { o with
      other := (o.other.advance sv id o.engine).1
      engine := (o.other.advance sv id o.engine).2 }) :
    ∃ s', Sound sv id q s' { o with
      other := (o.other.advance sv id o.engine).1
      engine := (o.other.advance sv id o.engine).2 } := by
  rcases o with ⟨e, commit, other⟩
  have hother := h.other
  cases other with
  | asked d =>
      rcases hother with rfl | rfl
      · exact ⟨s, h.other_reload hq hclash⟩
      · exact h.other_refresh hclash
  | reading path p known =>
      cases hother.left
      exact ⟨s, h.other_reading⟩
  | updating path p content =>
      cases hother.left
      exact h.other_updating hq
  | loading source root => exact ⟨s, h.other_loading hstore⟩
  | replacing w => exact h.other_replacing
  | answered answer => exact ⟨s, h⟩
  | failed halt => exact ⟨s, h⟩
  | writing left report => cases hother
  | folding edit left report => cases hother

/-!
# All that may happen
-/

/-- While the other operation has not started it knows nothing of the store. -/
theorem Sound.outside (h : Sound sv id q s o) {d : Demand} (hasked : o.other = .asked d)
    (store : σ) : Sound sv id q s { o with engine := { o.engine with store := store } } := by
  rcases o with ⟨e, commit, other⟩
  cases hasked
  exact ⟨h.session, h.keyed, h.commit, h.other, fun hstarted => absurd rfl hstarted⟩

theorem Sound.step (h : Sound sv id q s o) (hstore : sv.store.Mirrors q) (hq : q.isAbsolute)
    (hstep : Step sv id o o') (hclash : ¬ Clashes q o o') : ∃ s', Sound sv id q s' o' := by
  cases hstep with
  | commit => exact h.commit_step hstore hq hclash
  | other => exact h.other_step hstore hq hclash
  | background schedule => exact ⟨s, h.session, h.keyed, h.commit, h.other, h.fresh⟩
  | outside hasked store => exact ⟨s, h.outside hasked store⟩

theorem Sound.steps (h : Sound sv id q s o) (hstore : sv.store.Mirrors q) (hq : q.isAbsolute)
    (hsteps : Relation.ReflTransGen (fun o o' => Step sv id o o' ∧ ¬ Clashes q o o') o o') :
    ∃ s', Sound sv id q s' o' := by
  induction hsteps with
  | refl => exact ⟨s, h⟩
  | tail _ hstep ih =>
      rcases ih with ⟨t, ht⟩
      exact ht.step hstore hq hstep.left hstep.right

/-- Unless the commit and the other operation get in between what the other does to a file
and its fold, the document has the content of the file when both are through. The session
need not have had it before. -/
theorem synced_of_steps (hstore : sv.store.Mirrors q) (hq : q.isAbsolute)
    (hsession : e.sessions.get? id = some s) (hkeyed : s.id = id)
    (hplain : ∀ edit ∈ s.pendingEdits, Plain sv q edit) {d : Demand}
    (hd : d = .reload q ∨ d = .refresh)
    (hsteps : Relation.ReflTransGen (fun o o' => Step sv id o o' ∧ ¬ Clashes q o o')
      ⟨e, .asked .commit, .asked d⟩ o)
    (hcommit : o.commit.hasAnswered) (hother : o.other.hasAnswered) :
    ∃ s', o.engine.sessions.get? id = some s' ∧ ∀ p x,
      s'.workspace.document? q = some (p, x) → sv.store.read o.engine.store q = .ok x.content := by
  have hstart : Sound sv id q s ⟨e, .asked .commit, .asked d⟩ :=
    ⟨hsession, hkeyed, hplain, hd, fun hstarted => absurd rfl hstarted⟩
  rcases hstart.steps hstore hq hsteps with ⟨s', h⟩
  rcases o with ⟨e', commit, other⟩
  cases commit with
  | answered committed =>
      cases other with
      | answered answer =>
          refine ⟨s', h.session, fun p x hfound => h.other rfl x.content ?_⟩
          rw [Workspace.content?, hfound]
          rfl
      | _ => cases hother
  | _ => cases hcommit

/-!
# How they drift apart

Each of the two clashes is enough, and so is another name of the file.
-/

theorem Step.of_commit {stage : Stage} {e' : Engine σ π}
    (h : (o.commit.step sv id).Returns o.engine stage e') : Step sv id o ⟨e', stage, o.other⟩ := by
  have hstep : Step sv id o { o with
      commit := (o.commit.advance sv id o.engine).1
      engine := (o.commit.advance sv id o.engine).2 } := .commit
  rwa [advance_of_returns h] at hstep

theorem Step.of_other {stage : Stage} {e' : Engine σ π}
    (h : (o.other.step sv id).Returns o.engine stage e') : Step sv id o ⟨e', o.commit, stage⟩ := by
  have hstep : Step sv id o { o with
      other := (o.other.advance sv id o.engine).1
      engine := (o.other.advance sv id o.engine).2 } := .other
  rwa [advance_of_returns h] at hstep

/-- The session has a document at the path with the content. -/
def Shows (e : Engine σ π) (id : SessionId) (q : Path) (text : String) : Prop :=
  ∃ s, e.sessions.get? id = some s ∧ s.id = id ∧ s.workspace.content? q = some text

variable {known text : String}

/-- A reload reads the file. -/
theorem Shows.reads (h : Shows e id q known) (hq : q.isAbsolute)
    (hread : sv.store.read e.store q = .ok text) (commit : Stage) :
    ∃ p, Relation.ReflTransGen (Step sv id) ⟨e, commit, .asked (.reload q)⟩
      ⟨e, commit, if text = known then .answered (.invalidated []) else .updating q p text⟩ := by
  rcases h with ⟨s, hsession, _, hcontent⟩
  rcases Option.map_eq_some_iff.mp hcontent with ⟨⟨p, d⟩, hfound, rfl⟩
  have hresolve : s.workspace.resolve q = q := if_pos hq
  have hreading : ((Stage.asked (.reload q)).step sv id).Returns e (.reading _ p.id d.content) e :=
    step_found hsession (hresolve.symm ▸ hfound)
  rw [hresolve] at hreading
  exact ⟨p.id, .tail (.single (.of_other hreading)) (.of_other (step_read hread p.id d.content))⟩

/-- A reload folds in what it has read. -/
theorem Shows.updates (sv : Services σ π) (h : Shows e id q known) (hq : q.isAbsolute) (p : ProjectId)
    (commit : Stage) (text : String) :
    ∃ answer e', Step sv id ⟨e, commit, .updating q p text⟩ ⟨e', commit, .answered answer⟩ ∧
      Shows e' id q text ∧ e'.store = e.store := by
  rcases h with ⟨s, hsession, hkeyed, hcontent⟩
  have hcontent' := s.content?_update hq hq text
  rw [if_pos (Path.same_iff.mpr rfl), hcontent] at hcontent'
  have hkeyed' : (((s.updateDocument q text).map Prod.snd).getD s).id = id := by
    rw [Session.updateDocument_getD]
    exact hkeyed
  exact ⟨_, _, .of_other (step_updating hsession q p text),
    ⟨_, get?_setSession hkeyed', hkeyed', hcontent'⟩, rfl⟩

/-- A commit writes the one text that is pending. -/
theorem Shows.writes (hsession : e.sessions.get? id = some s) (hkeyed : s.id = id)
    (hpending : s.pendingEdits = [edit]) (hcontent : s.workspace.content? q = some known)
    {store : σ} (hwrite : sv.store.write e.store edit.path edit.text = (.ok (), store))
    (other : Stage) :
    ∃ e', Relation.ReflTransGen (Step sv id) ⟨e, .asked .commit, other⟩
        ⟨e', .folding edit [] .empty, other⟩ ∧
      Shows e' id q known ∧ e'.store = store := by
  have hwriting : ((Stage.asked .commit).step sv id).Returns e _ _ := step_commit hsession
  have hfolding : ((Stage.writing [edit] .empty).step sv id).Returns _ _ _ :=
    step_written (e := e.setSession { s with lastAccess := e.clock }) hwrite [] .empty
  rw [hpending] at hwriting
  exact ⟨_, .tail (.single (.of_commit hwriting)) (.of_commit hfolding),
    ⟨_, get?_setSession (e := e) hkeyed, hkeyed, hcontent⟩, rfl⟩

/-- A commit folds in what it has written, and is through. -/
theorem Shows.folds (sv : Services σ π) (h : Shows e id q known) (hq : q.isAbsolute)
    (hpath : edit.path.isAbsolute) (report : CommitReport) (other : Stage) :
    ∃ answer e', Relation.ReflTransGen (Step sv id) ⟨e, .folding edit [] report, other⟩
        ⟨e', .answered answer, other⟩ ∧
      Shows e' id q (if edit.path.same q then edit.text else known) ∧ e'.store = e.store := by
  rcases h with ⟨s, hsession, hkeyed, hcontent⟩
  have hcontent' := s.content?_settle hpath hq
  rw [hcontent, Option.map_some, ← apply_ite some] at hcontent'
  have hkeyed' : (s.settle edit).id = id := (s.alike_settle edit).id.trans hkeyed
  have hfolding : ((Stage.folding edit [] report).step sv id).Returns e _ _ :=
    step_folding hsession edit [] report
  have hsession' : ((e.setSession (s.settle edit)).updateTables fun t =>
      t.invalidateDownstream id (s.settle edit).graph edit.project).sessions.get? id =
        some (s.settle edit) := get?_setSession hkeyed'
  refine ⟨_, _, .tail (.single (.of_commit hfolding)) (.of_commit (step_conclude hsession' _)), ?_⟩
  split
  · exact ⟨⟨_, get?_setSession hkeyed', hkeyed', hcontent'⟩, rfl⟩
  · exact ⟨⟨_, get?_setSession hkeyed', hkeyed', hcontent'⟩, rfl⟩

section Drifts

variable (hq : q.isAbsolute) (hsession : e.sessions.get? id = some s) (hkeyed : s.id = id)
  (hpending : s.pendingEdits = [edit]) (hpath : edit.path.isAbsolute)
  (hcontent : s.workspace.content? q = some known)
include hq hsession hkeyed hpending hpath hcontent

/-- What is folded in has been read before the file was written. -/
theorem drifts_read_before {store store' : σ} (hread : sv.store.read store q = .ok text)
    (hnews : text ≠ known) (hwrite : sv.store.write store edit.path edit.text = (.ok (), store')) :
    ∃ committed answer e', Relation.ReflTransGen (Step sv id)
        ⟨e, .asked .commit, .asked (.reload q)⟩ ⟨e', .answered committed, .answered answer⟩ ∧
      Shows e' id q text ∧ e'.store = store' := by
  have hshows : Shows { e with store := store } id q known := ⟨s, hsession, hkeyed, hcontent⟩
  rcases hshows.reads hq hread (.asked .commit) with ⟨p, hreads⟩
  rw [if_neg hnews] at hreads
  rcases Shows.writes (e := { e with store := store }) hsession hkeyed hpending hcontent hwrite
    (.updating q p text) with ⟨e₁, hwrites, hshows₁, hstore₁⟩
  rcases hshows₁.folds sv hq hpath .empty (.updating q p text) with
    ⟨committed, e₂, hfolds, hshows₂, hstore₂⟩
  rcases hshows₂.updates sv hq p (.answered committed) text with
    ⟨answer, e₃, hupdates, hshows₃, hstore₃⟩
  refine ⟨committed, answer, e₃, ?_, hshows₃, hstore₃.trans (hstore₂.trans hstore₁)⟩
  exact .trans (.single (.outside rfl store)) (.trans hreads (.trans hwrites (.tail hfolds hupdates)))

/-- What is put into the session has been loaded before the file was written. -/
theorem drifts_loaded_before {store store₁ store₂ : σ} {w : Workspace}
    (hload : sv.store.load store s.source s.root = (.ok w, store₁))
    (htext : w.content? q = some text)
    (hwrite : sv.store.write store₁ edit.path edit.text = (.ok (), store₂)) :
    ∃ committed answer e', Relation.ReflTransGen (Step sv id)
        ⟨e, .asked .commit, .asked .refresh⟩ ⟨e', .answered committed, .answered answer⟩ ∧
      Shows e' id q text ∧ e'.store = store₂ := by
  let s₁ := { s with lastAccess := e.clock }
  let e₁ := { e.setSession s₁ with store := store₁ }
  have hsession₁ : e₁.sessions.get? id = some s₁ := get?_setSession (e := e) hkeyed
  have hrefresh : ((Stage.asked .refresh).step sv id).Returns { e with store := store } _ _ :=
    step_refresh hsession
  have hloaded : ((Stage.loading s.source s.root).step sv id).Returns
      { e.setSession s₁ with store := store } _ _ := step_loaded hload
  rcases Shows.writes hsession₁ hkeyed hpending hcontent hwrite (.replacing w) with
    ⟨e₂, hwrites, hshows₂, hstore₂⟩
  rcases hshows₂.folds sv hq hpath .empty (.replacing w) with
    ⟨committed, e₃, hfolds, ⟨s₃, hsession₃, hkeyed₃, _⟩, hstore₃⟩
  have hput : (replacing id e₃ s₃ w).sessions.get? id = some (renewed s₃ w) :=
    get?_setSession hkeyed₃
  rcases get?_prewarm hput hkeyed₃ with ⟨batch, hbatch⟩
  refine ⟨committed, .done, _, ?_, ⟨_, hbatch, hkeyed₃, htext⟩,
    (rests_replacing id e₃ s₃ w).left.trans (hstore₃.trans hstore₂)⟩
  exact .trans (.single (.outside rfl store)) (.trans (.tail (.single (.of_other hrefresh))
    (.of_other hloaded)) (.trans hwrites (.tail hfolds (.of_other (step_replacing hsession₃ w)))))

/-- What is folded in has been written before the file was read. -/
theorem drifts_written_before {store store' : σ} (hsame : edit.path.same q)
    (hwrite : sv.store.write e.store edit.path edit.text = (.ok (), store))
    (hread : sv.store.read store' q = .ok text) (hnews : text ≠ known) :
    ∃ committed answer e', Relation.ReflTransGen (Step sv id)
        ⟨e, .asked .commit, .asked (.reload q)⟩ ⟨e', .answered committed, .answered answer⟩ ∧
      Shows e' id q edit.text ∧ e'.store = store' := by
  rcases Shows.writes hsession hkeyed hpending hcontent hwrite (.asked (.reload q)) with
    ⟨e₁, hwrites, hshows₁, _⟩
  have hshows₂ : Shows { e₁ with store := store' } id q known := hshows₁
  rcases hshows₂.reads hq hread (.folding edit [] .empty) with ⟨p, hreads⟩
  rw [if_neg hnews] at hreads
  rcases hshows₂.updates sv hq p (.folding edit [] .empty) text with
    ⟨answer, e₃, hupdates, hshows₃, hstore₃⟩
  rcases hshows₃.folds sv hq hpath .empty (.answered answer) with
    ⟨committed, e₄, hfolds, hshows₄, hstore₄⟩
  rw [if_pos hsame] at hshows₄
  refine ⟨committed, answer, e₄, ?_, hshows₄, hstore₄.trans hstore₃⟩
  exact .trans hwrites (.trans (.single (.outside rfl store')) (.trans hreads
    (.trans (.single hupdates) hfolds)))

/-- What is written under another name of the file is not folded in at all. -/
theorem drifts_written_elsewhere {store store' : σ} (hother : ¬ edit.path.same q)
    (hread : sv.store.read store q = .ok text)
    (hwrite : sv.store.write store edit.path edit.text = (.ok (), store')) :
    ∃ committed answer e', Relation.ReflTransGen (Step sv id)
        ⟨e, .asked .commit, .asked (.reload q)⟩ ⟨e', .answered committed, .answered answer⟩ ∧
      Shows e' id q text ∧ e'.store = store' := by
  by_cases hnews : text = known
  · have hshows : Shows { e with store := store } id q known := ⟨s, hsession, hkeyed, hcontent⟩
    rcases hshows.reads hq hread (.asked .commit) with ⟨p, hreads⟩
    rw [if_pos hnews] at hreads
    rcases Shows.writes (e := { e with store := store }) hsession hkeyed hpending hcontent hwrite
      (.answered (.invalidated [])) with ⟨e₁, hwrites, hshows₁, hstore₁⟩
    rcases hshows₁.folds sv hq hpath .empty (.answered (.invalidated [])) with
      ⟨committed, e₂, hfolds, hshows₂, hstore₂⟩
    rw [if_neg hother] at hshows₂
    refine ⟨committed, .invalidated [], e₂, ?_, hnews ▸ hshows₂, hstore₂.trans hstore₁⟩
    exact .trans (.single (.outside rfl store)) (.trans hreads (.trans hwrites hfolds))
  · exact drifts_read_before hq hsession hkeyed hpending hpath hcontent hread hnews hwrite

end Drifts

end Overlap

/-!
# A file with two names

For an example, two projects list one file, each under a name of its own.
-/

/-- The store has one file, and the workspace is loaded from it. -/
def sheet : Services String (List Document) where
  store :=
    { read := fun m path => if path = ⟨"/s"⟩ ∨ path = ⟨"/t"⟩ then .ok m else .error .noEntry
      write := fun m path text =>
        if path = ⟨"/s"⟩ ∨ path = ⟨"/t"⟩ then (.ok (), text) else (.error .noEntry, m)
      load := fun m _ _ => (.ok (singles [("a", "/s", m), ("b", "/t", m)]), m) }
  backend := mirror
  analyzers _ := .ok (.ofNames [])

/-- The file is empty, and an `x` is pending for it under its first name. -/
def sheetEngine : Engine String (List Document) :=
  (Engine.new .default "" true).setSession (typed apart)

theorem session_sheetEngine :
    sheetEngine.sessions.get? ⟨"s"⟩ = some (typed apart) ∧ (typed apart).id = ⟨"s"⟩ := by
  have hkeyed : (typed apart).id = ⟨"s"⟩ := congrArg Context.session (context_typed apart)
  exact ⟨get?_setSession hkeyed, hkeyed⟩

/-- The first document is found. -/
theorem content?_singles (id path text : String) (rows : List (String × String × String))
    (h : Path.isAbsolute ⟨path⟩) : (singles ((id, path, text) :: rows)).content? ⟨path⟩ = some text := by
  have hsame : Path.same ⟨path⟩ ⟨path⟩ := Path.same_iff.mpr rfl
  simp [Workspace.content?, Workspace.document?, Workspace.resolve, Project.document?, singles,
    single, h, hsame]

namespace Overlap

theorem mirrors_sheet : sheet.store.Mirrors ⟨"/s"⟩ where
  stored m text m' h := by
    cases h
    rfl
  refused m text cause m' h := nomatch h
  kept m source root := rfl
  loaded m source root w h text htext := by
    cases h
    cases (content?_singles "a" "/s" m _ (by decide)).symm.trans htext
    rfl

theorem plain_typed : ∀ edit ∈ (typed apart).pendingEdits, Plain sheet ⟨"/s"⟩ edit := by
  have hpaths : ∀ edit ∈ (typed apart).pendingEdits, edit.path = ⟨"/s"⟩ := by decide +kernel
  intro edit hedit
  rw [Plain, hpaths edit hedit]
  exact ⟨by decide, .inl rfl⟩

/-- For one, the file is changed and read again before it is written. -/
theorem synced_sheet : ∃ o : Overlap String (List Document),
    o.commit.hasAnswered ∧ o.other.hasAnswered ∧
      ∃ s, o.engine.sessions.get? ⟨"s"⟩ = some s ∧ ∀ p x,
        s.workspace.document? ⟨"/s"⟩ = some (p, x) →
          sheet.store.read o.engine.store ⟨"/s"⟩ = .ok x.content := by
  rcases session_sheetEngine with ⟨hsession, hkeyed⟩
  have hsteps : ∃ o, Relation.ReflTransGen
      (fun o o' => Step sheet ⟨"s"⟩ o o' ∧ ¬ Clashes ⟨"/s"⟩ o o')
      ⟨sheetEngine, .asked .commit, .asked (.reload ⟨"/s"⟩)⟩ o ∧
        o.commit.hasAnswered ∧ o.other.hasAnswered := by
    refine ⟨_, .tail (.tail (.tail (.tail (.tail (.tail (.tail (.single
      ⟨.outside rfl "y", ?_⟩) ⟨.commit, ?_⟩) ⟨.other, ?_⟩) ⟨.other, ?_⟩) ⟨.other, ?_⟩)
      ⟨.commit, ?_⟩) ⟨.commit, ?_⟩) ⟨.commit, ?_⟩, ?_⟩
    all_goals decide +kernel
  rcases hsteps with ⟨o, hsteps, hcommit, hother⟩
  exact ⟨o, hcommit, hother, synced_of_steps mirrors_sheet (by decide) hsession hkeyed plain_typed
    (.inl rfl) hsteps hcommit hother⟩

/-- The reload takes the place of what is written between its reading and its fold. Also a
file is written under its first name and is not folded in under the second. -/
theorem drifted_sheet :
    (∀ d ∈ (typed apart).workspace.documents, d.path.isAbsolute ∧
      sheet.store.read sheetEngine.store d.path = .ok d.content) ∧
    (∃ committed answer e s, Relation.ReflTransGen (Step sheet ⟨"s"⟩)
        ⟨sheetEngine, .asked .commit, .asked (.reload ⟨"/s"⟩)⟩
        ⟨e, .answered committed, .answered answer⟩ ∧
      e.sessions.get? ⟨"s"⟩ = some s ∧ s.workspace.content? ⟨"/s"⟩ = some "y" ∧
      sheet.store.read e.store ⟨"/s"⟩ = .ok "x") ∧
    ∃ committed answer e s, Relation.ReflTransGen (Step sheet ⟨"s"⟩)
        ⟨sheetEngine, .asked .commit, .asked (.reload ⟨"/t"⟩)⟩
        ⟨e, .answered committed, .answered answer⟩ ∧
      e.sessions.get? ⟨"s"⟩ = some s ∧ s.workspace.content? ⟨"/t"⟩ = some "y" ∧
      sheet.store.read e.store ⟨"/t"⟩ = .ok "x" := by
  rcases session_sheetEngine with ⟨hsession, hkeyed⟩
  have hworkspace : (typed apart).workspace = singles apart :=
    congrArg Context.workspace (context_typed apart)
  have hpending : (typed apart).pendingEdits = [⟨⟨"a"⟩, ⟨"/s"⟩, "x"⟩] := by decide +kernel
  refine ⟨hworkspace ▸ by decide +kernel, ?_, ?_⟩
  · have hcontent : (typed apart).workspace.content? ⟨"/s"⟩ = some "" :=
      hworkspace ▸ by decide +kernel
    have hread : sheet.store.read "y" ⟨"/s"⟩ = .ok "y" := rfl
    rcases drifts_read_before (by decide) hsession hkeyed hpending (by decide) hcontent hread
      (by decide) rfl with ⟨committed, answer, e, hsteps, ⟨s, hs, _, hcontent⟩, hstore⟩
    exact ⟨committed, answer, e, s, hsteps, hs, hcontent, hstore ▸ rfl⟩
  · have hcontent : (typed apart).workspace.content? ⟨"/t"⟩ = some "" :=
      hworkspace ▸ by decide +kernel
    have hread : sheet.store.read "y" ⟨"/t"⟩ = .ok "y" := rfl
    rcases drifts_written_elsewhere (by decide) hsession hkeyed hpending (by decide) hcontent
      (by decide) hread rfl with ⟨committed, answer, e, hsteps, ⟨s, hs, _, hcontent⟩, hstore⟩
    exact ⟨committed, answer, e, s, hsteps, hs, hcontent, hstore ▸ rfl⟩

end Overlap
end Engine
end Ripple
