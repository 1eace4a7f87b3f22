import Ripple.Proofs.Cache.Transparency
import Ripple.Proofs.Engine.Commit
import Ripple.Proofs.Session.Pending
import Ripple.Store.Memory

/-!
# Commits of which some writes fail

A commit goes through the pending texts one by one. A text that is written is
folded into the workspace, is no longer pending, and takes what was cached along;
a text that cannot be written stays pending, and nothing else changes for it. So
a second commit takes up just what the first has left.
-/

namespace Ripple

open Cache

/-!
# The stores that a commit goes through
-/

namespace Cache.Tables

variable {π : Type}

theorem entries_invalidate (t : Tables π) (session : SessionId) (project : ProjectId)
    (slot : Slot) : (t.invalidate session project).entries.get? slot =
      if slot = ⟨session, project⟩ then none else t.entries.get? slot :=
  Table.get?_erase ..

/-- What an invalidation leaves in the cache. -/
theorem entries_invalidateAll (t : Tables π) (session : SessionId) (ids : List ProjectId)
    (slot : Slot) : (t.invalidateAll session ids).entries.get? slot =
      if slot.session = session ∧ slot.project ∈ ids then none else t.entries.get? slot := by
  induction ids generalizing t with
  | nil => simp [invalidateAll]
  | cons id ids ih =>
      have hslot : slot = ⟨session, id⟩ ↔ slot.session = session ∧ slot.project = id := by
        cases slot
        simp
      change ((t.invalidate session id).invalidateAll session ids).entries.get? slot = _
      rw [ih, entries_invalidate]
      simp only [hslot, List.mem_cons]
      grind

end Cache.Tables

namespace Engine

theorem mem_addNew {known more : List ProjectId} {id : ProjectId} :
    id ∈ addNew known more ↔ id ∈ known ∨ id ∈ more := by
  induction more generalizing known with
  | nil => simp [addNew]
  | cons first more ih =>
      change id ∈ addNew (if first ∈ known then known else known ++ [first]) more ↔ _
      rw [ih]
      split <;> grind

theorem nodup_addNew {known : List ProjectId} (h : known.Nodup) (more : List ProjectId) :
    (addNew known more).Nodup := by
  induction more generalizing known with
  | nil => exact h
  | cons first more ih =>
      change (addNew (if first ∈ known then known else known ++ [first]) more).Nodup
      apply ih
      split
      · exact h
      · rename_i hfirst
        exact List.nodup_append.mpr ⟨h, List.nodup_singleton _, by grind⟩

theorem mem_addAll {α : Type} (list : α → List ProjectId) (items : List α)
    {known : List ProjectId} {id : ProjectId} :
    id ∈ items.foldl (fun known x => addNew known (list x)) known ↔
      id ∈ known ∨ ∃ x ∈ items, id ∈ list x := by
  induction items generalizing known with
  | nil => simp
  | cons x items ih =>
      rw [List.foldl_cons, ih, mem_addNew, List.exists_mem_cons_iff, or_assoc]

theorem nodup_addAll {α : Type} (list : α → List ProjectId) (items : List α)
    {known : List ProjectId} (h : known.Nodup) :
    (items.foldl (fun known x => addNew known (list x)) known).Nodup := by
  induction items generalizing known with
  | nil => exact h
  | cons x items ih => exact ih (nodup_addNew h _)

/-!
# One edit
-/

variable {π : Type} {sv : Services Memory π} {id : SessionId} {e e' : Engine Memory π}
  {s s' : Session} {report report' : CommitReport}

/-- The store lets the pending text be written. -/
def admits (m : Memory) (x : PendingEdit) : Bool :=
  !m.closed.contains x.path

/-- How the failure of a write is reported. -/
def rejection (x : PendingEdit) : FileFailure :=
  ⟨x.path, .writeFailed x.path (FileError.rejected x.path).message⟩

theorem write_of_admits {m : Memory} {x : PendingEdit} (h : admits m x) :
    m.write x.path x.text =
      (.ok (), { m with files := m.files.insert x.path x.text, writes := m.writes + 1 }) := by
  have hopen : m.closed.contains x.path = false := by simpa [admits] using h
  rw [Memory.write, if_neg (by simp [hopen])]

theorem write_of_not_admits {m : Memory} {x : PendingEdit} (h : ¬ admits m x) :
    m.write x.path x.text = (.error (.rejected x.path), m) := by
  have hclosed : m.closed.contains x.path := by simpa [admits] using h
  rw [Memory.write, if_pos hclosed]

/-- A text that cannot be written is reported, and nothing changes. -/
theorem returns_commitEdit_of_not_admits (hstore : sv.store = Memory.store) {x : PendingEdit}
    (hx : ¬ admits e.store x) (report : CommitReport) :
    (commitEdit sv id report x).Returns e
      { report with failed := report.failed ++ [rejection x] } e := by
  have hwrite : sv.store.write e.store x.path x.text = (.error (.rejected x.path), e.store) := by
    rw [hstore]
    exact write_of_not_admits hx
  unfold commitEdit
  refine Operation.returns_bind_iff.mpr
    ⟨_, _, Operation.returns_writeText_iff.mpr ⟨rfl, rfl⟩, ?_⟩
  rw [hwrite]
  exact Operation.returns_pure_iff.mpr ⟨rfl, rfl⟩

/-!
# All edits
-/

/-- The texts of a list that the store lets be written. -/
def accepted (m : Memory) (edits : List PendingEdit) : List PendingEdit :=
  edits.filter (admits m)

/-- What becomes of the stores while a list of pending texts is gone through. -/
structure Carried (id : SessionId) (edits : List PendingEdit) (e : Engine Memory π)
    (s : Session) (report : CommitReport) (e' : Engine Memory π) (s' : Session)
    (report' : CommitReport) : Prop where
  written : report'.written =
    report.written ++ (accepted e.store edits).map PendingEdit.path
  failed : report'.failed =
    report.failed ++ (edits.filter fun x => !admits e.store x).map rejection
  invalidated : report'.invalidated = (accepted e.store edits).foldl
    (fun known x => addNew known (Tables.affectedBy s.graph x.project)) report.invalidated
  closed : e'.store.closed = e.store.closed
  files : e'.store.files =
    (accepted e.store edits).foldl (fun m x => m.insert x.path x.text) e.store.files
  session : s' = { s with
    workspace := s.workspace.commitAll (accepted e.store edits)
    pending := ((accepted e.store edits).map PendingEdit.path).foldl PathMap.erase s.pending }
  sessions : ∀ other, e'.sessions.get? other =
    if other = id then some s' else e.sessions.get? other
  entries : ∀ slot, e'.schedule.tables.entries.get? slot =
    if slot.session = id ∧ slot.project ∈ (accepted e.store edits).flatMap
      fun x => Tables.affectedBy s.graph x.project then none
    else e.schedule.tables.entries.get? slot
  formed : s.Formed → s'.Formed

theorem settle_eq {x : PendingEdit} (h : s.pendingText? x.path = some x.text) :
    s.settle x = { s with
      workspace := (s.workspace.setContent? x.path x.text).getD s.workspace
      pending := s.pending.erase x.path } := by
  unfold Session.settle Session.clearPendingIf
  rw [if_pos h, Session.updateDocument_getD]
  rfl

theorem admits_congr {m m' : Memory} (h : m'.closed = m.closed) : admits m' = admits m := by
  funext x
  rw [admits, admits, h]

theorem carried_nil (hsession : e.sessions.get? id = some s) :
    Carried id [] e s report e s report where
  written := by simp [accepted]
  failed := by simp
  invalidated := rfl
  closed := rfl
  files := rfl
  session := rfl
  sessions other := by
    split
    · rename_i hother
      rw [hother, hsession]
    · rfl
  entries slot := by simp [accepted]
  formed hformed := hformed

theorem Carried.cons_of_not_admits {x : PendingEdit} {rest : List PendingEdit}
    (hx : ¬ admits e.store x)
    (h : Carried id rest e s { report with failed := report.failed ++ [rejection x] } e' s'
      report') : Carried id (x :: rest) e s report e' s' report' := by
  have haccepted : accepted e.store (x :: rest) = accepted e.store rest :=
    List.filter_cons_of_neg hx
  constructor
  · rw [haccepted]
    exact h.written
  · rw [h.failed, List.filter_cons_of_pos (by simpa using hx)]
    simp
  · rw [haccepted]
    exact h.invalidated
  · exact h.closed
  · rw [haccepted]
    exact h.files
  · rw [haccepted]
    exact h.session
  · exact h.sessions
  · rw [haccepted]
    exact h.entries
  · exact h.formed

/-- A text that is written, and then the rest. -/
theorem Carried.cons_of_admits (hstore : sv.store = Memory.store) (hid : s.id = id)
    {x : PendingEdit} {rest : List PendingEdit} (hx : admits e.store x)
    (hpending : s.pendingText? x.path = some x.text)
    (h : Carried id rest (wrote sv id e s x) (s.settle x)
      { report with
        written := report.written ++ [x.path]
        invalidated := addNew report.invalidated (Tables.affectedBy (s.settle x).graph x.project) }
      e' s' report') : Carried id (x :: rest) e s report e' s' report' := by
  have haccepted : accepted e.store (x :: rest) = x :: accepted e.store rest :=
    List.filter_cons_of_pos hx
  have hwrote : (wrote sv id e s x).store =
      { e.store with files := e.store.files.insert x.path x.text, writes := e.store.writes + 1 } := by
    change (sv.store.write e.store x.path x.text).2 = _
    rw [hstore]
    exact congrArg Prod.snd (write_of_admits hx)
  have hgraph : (s.settle x).graph = s.graph := (s.alike_settle x).graph
  have hadmits : admits (wrote sv id e s x).store = admits e.store :=
    admits_congr (by rw [hwrote])
  have hrest : accepted (wrote sv id e s x).store rest = accepted e.store rest := by
    rw [accepted, accepted, hadmits]
  constructor
  · rw [h.written, hrest, haccepted]
    simp
  · rw [h.failed, hadmits, List.filter_cons_of_neg (by simpa using hx)]
  · rw [h.invalidated, hrest, haccepted, hgraph]
    rfl
  · rw [h.closed, hwrote]
  · rw [h.files, hrest, haccepted, hwrote]
    rfl
  · rw [h.session, hrest, haccepted, settle_eq hpending]
    rfl
  · intro other
    rw [h.sessions]
    split
    · rfl
    · rename_i hother
      change (e.sessions.insert (s.settle x).id (s.settle x)).get? other = _
      rw [Table.get?_insert, if_neg]
      rw [(s.alike_settle x).id, hid]
      exact hother
  · intro slot
    rw [h.entries, hrest, haccepted, hgraph]
    change (if _ then none else
      (e.schedule.tables.invalidateAll id
        (Tables.affectedBy (s.settle x).graph x.project)).entries.get? slot) = _
    rw [Tables.entries_invalidateAll, hgraph]
    simp only [List.flatMap_cons, List.mem_append]
    grind
  · intro hformed
    exact h.formed (hformed.settle x)

/-- Pending texts of different places can all be gone through. -/
theorem returns_commitEdits (hstore : sv.store = Memory.store)
    (hsession : e.sessions.get? id = some s) (hid : s.id = id) {edits : List PendingEdit}
    (hpending : ∀ x ∈ edits, s.pendingText? x.path = some x.text)
    (hapart : edits.Pairwise fun x y => ¬ x.path.same y.path) (report : CommitReport) :
    ∃ report' e' s', (edits.foldlM (commitEdit sv id) report).Returns e report' e' ∧
      Carried id edits e s report e' s' report' := by
  induction edits generalizing e s report with
  | nil => exact ⟨report, e, s, Operation.returns_pure_iff.mpr ⟨rfl, rfl⟩, carried_nil hsession⟩
  | cons x rest ih =>
      rcases List.forall_mem_cons.mp hpending with ⟨hx, hrest⟩
      rcases List.pairwise_cons.mp hapart with ⟨hfirst, hapart⟩
      by_cases hadmits : admits e.store x
      · have hwrites : (sv.store.write e.store x.path x.text).1 = .ok () := by
          rw [hstore]
          exact congrArg Prod.fst (write_of_admits hadmits)
        have hsettled : (wrote sv id e s x).sessions.get? id = some (s.settle x) := by
          change (e.sessions.insert (s.settle x).id (s.settle x)).get? id = _
          rw [Table.get?_insert, if_pos]
          rw [(s.alike_settle x).id, hid]
        have hleft : ∀ y ∈ rest, (s.settle x).pendingText? y.path = some y.text := by
          intro y hy
          rw [settle_eq hx, Session.pendingText?, PathMap.get?_erase, if_neg (hfirst y hy)]
          exact hrest y hy
        rcases ih hsettled ((s.alike_settle x).id.trans hid) hleft hapart _ with
          ⟨report', e', s', hreturns, hcarried⟩
        refine ⟨report', e', s', ?_, .cons_of_admits hstore hid hadmits hx hcarried⟩
        rw [List.foldlM_cons]
        exact Operation.returns_bind_iff.mpr
          ⟨_, _, returns_commitEdit hsession report x hwrites, hreturns⟩
      · rcases ih hsession hid hrest hapart
            { report with failed := report.failed ++ [rejection x] } with
          ⟨report', e', s', hreturns, hcarried⟩
        refine ⟨report', e', s', ?_, .cons_of_not_admits hadmits hcarried⟩
        rw [List.foldlM_cons]
        exact Operation.returns_bind_iff.mpr
          ⟨_, _, returns_commitEdit_of_not_admits hstore hadmits report, hreturns⟩

/-!
# The commit
-/

/-- The session when a commit begins. -/
def usedIn (e : Engine Memory π) (s : Session) : Session :=
  { s with lastAccess := e.clock }

/-- The phase when the pending texts have been gone through. -/
def phaseAfter (report : CommitReport) (s : Session) : Phase :=
  if s.pending.size = 0 && !report.written.isEmpty then .committed else s.phase

/-- What the pending texts were carried to is what the commit leaves, but for the phase. -/
theorem exists_commit (hstore : sv.store = Memory.store) (hsession : e.sessions.get? id = some s)
    (hid : s.id = id) (hformed : s.Formed) : ∃ report e' s₁ e₁,
      (commit sv id).Returns e report e' ∧
      Carried id s.pendingEdits (e.setSession (usedIn e s)) (usedIn e s) .empty e₁ s₁ report ∧
      e'.store = e₁.store ∧ e'.schedule = e₁.schedule ∧
      ∀ other, e'.sessions.get? other =
        if other = id then some { s₁ with phase := phaseAfter report s₁ }
        else e₁.sessions.get? other := by
  have hused : (e.setSession (usedIn e s)).sessions.get? id = some (usedIn e s) := by
    change (e.sessions.insert (usedIn e s).id (usedIn e s)).get? id = _
    rw [Table.get?_insert]
    exact if_pos hid.symm
  have hpending : ∀ x ∈ s.pendingEdits, (usedIn e s).pendingText? x.path = some x.text :=
    fun x hx => hformed.pendingText?_eq hx
  rcases returns_commitEdits hstore hused hid hpending hformed.pairwise_apart .empty with
    ⟨report, e₁, s₁, hedits, hcarried⟩
  have hfound : e₁.sessions.get? id = some s₁ := by
    rw [hcarried.sessions, if_pos rfl]
  have hid₁ : s₁.id = id := by
    rw [hcarried.session]
    exact hid
  have hbegun : ∀ e', (if s₁.pending.size = 0 && !report.written.isEmpty then do
        Operation.setSession { s₁ with phase := .committed }
        pure report
      else pure report : Operation Memory π CommitReport).Returns e₁ report e' →
      (commit sv id).Returns e report e' := by
    intro e' hlast
    unfold commit
    refine Operation.returns_bind_iff.mpr
      ⟨_, _, Operation.returns_use_iff.mpr ⟨s, hsession, rfl, rfl⟩, ?_⟩
    refine Operation.returns_bind_iff.mpr ⟨report, e₁, hedits, ?_⟩
    exact Operation.returns_bind_iff.mpr
      ⟨s₁, e₁, Operation.returns_find_iff.mpr ⟨hfound, rfl⟩, hlast⟩
  by_cases hdone : s₁.pending.size = 0 && !report.written.isEmpty
  · refine ⟨report, e₁.setSession { s₁ with phase := .committed }, s₁, e₁, ?_, hcarried, rfl,
      rfl, ?_⟩
    · apply hbegun
      rw [if_pos hdone]
      refine Operation.returns_bind_iff.mpr ⟨⟨⟩, _, Operation.returns_setSession_iff.mpr rfl, ?_⟩
      exact Operation.returns_pure_iff.mpr ⟨rfl, rfl⟩
    · intro other
      change (e₁.sessions.insert s₁.id _).get? other = _
      rw [Table.get?_insert, hid₁, phaseAfter, if_pos hdone]
  · refine ⟨report, e₁, s₁, e₁, ?_, hcarried, rfl, rfl, ?_⟩
    · apply hbegun
      rw [if_neg hdone]
      exact Operation.returns_pure_iff.mpr ⟨rfl, rfl⟩
    · intro other
      rw [phaseAfter, if_neg hdone]
      split
      · rename_i hother
        rw [hother, hfound]
      · rfl

/-- What a commit leaves, whichever of its writes the store refuses. -/
structure CommitsPart (sv : Services Memory π) (id : SessionId) (e : Engine Memory π)
    (s : Session) (report : CommitReport) (e' : Engine Memory π) (s' : Session) : Prop where
  returns : (commit sv id).Returns e report e'
  session : e'.sessions.get? id = some s'
  ordered : (s.pendingEdits.map PendingEdit.path).Pairwise Path.Before
  written : report.written = (s.pendingEdits.filter (admits e.store)).map PendingEdit.path
  failed : report.failed = (s.pendingEdits.filter fun x => !admits e.store x).map rejection
  written_file : ∀ x ∈ s.pendingEdits, admits e.store x →
    e'.store.files.get? x.path = some x.text
  failed_file : ∀ x ∈ s.pendingEdits, ¬ admits e.store x →
    e'.store.files.get? x.path = e.store.files.get? x.path
  other_file : ∀ q, (∀ p ∈ report.written, ¬ p.same q) →
    e'.store.files.get? q = e.store.files.get? q
  pending : s'.pendingEdits = s.pendingEdits.filter fun x => !admits e.store x
  written_document : ∀ x ∈ s.pendingEdits, admits e.store x →
    ∃ p d, s'.workspace.document? x.path = some (p, d) ∧ d.content = x.text
  failed_document : ∀ x ∈ s.pendingEdits, ¬ admits e.store x →
    (s'.workspace.document? x.path).map Prod.snd = (s.workspace.document? x.path).map Prod.snd
  other_documents : ∀ before d after, s.workspace.documents = before ++ d :: after →
    (∃ other ∈ before, other.path.same d.path) ∨ (∀ p ∈ report.written, ¬ p.same d.path) →
    s'.workspace.documents[before.length]? = some d
  root : s'.workspace.root = s.workspace.root
  layout : s'.workspace.projects.map Project.layout = s.workspace.projects.map Project.layout
  kept : s' = { s with
    workspace := s'.workspace
    pending := s'.pending
    phase := s'.phase
    lastAccess := e.clock }
  others : ∀ other, other ≠ id → e'.sessions.get? other = e.sessions.get? other
  nodup_invalidated : report.invalidated.Nodup
  invalidated : ∀ q, q ∈ report.invalidated ↔ ∃ path ∈ report.written, ∃ p d,
    s.workspace.document? path = some (p, d) ∧ q ∈ Tables.affectedBy s.graph p.id
  entries : ∀ slot, e'.schedule.tables.entries.get? slot =
    if slot.session = id ∧ slot.project ∈ report.invalidated then none
    else e.schedule.tables.entries.get? slot
  phase : s'.phase =
    if report.written ≠ [] ∧ s'.pendingEdits = [] then .committed else s.phase
  again : ∀ m : Memory, ∃ report₂ e₂,
    (commit sv id).Returns { e' with store := m } report₂ e₂ ∧
    report₂.written = (report.failed.map FileFailure.path).filter (fun p => !m.closed.contains p) ∧
    report₂.failed.map FileFailure.path =
      (report.failed.map FileFailure.path).filter (fun p => m.closed.contains p)

section

variable (h : s.Formed)
include h

theorem pairwise_accepted (m : Memory) :
    (accepted m s.pendingEdits).Pairwise fun x y => ¬ x.path.same y.path :=
  h.pairwise_apart.filter _

/-- The text of a place that is written, if its edit is accepted. -/
theorem lastText_of_admits {m : Memory} {x : PendingEdit} (hx : x ∈ s.pendingEdits)
    (hadmits : admits m x) : lastText (accepted m s.pendingEdits) x.path = some x.text := by
  apply lastText_eq_some
  · exact ⟨x, List.mem_filter.mpr ⟨hx, hadmits⟩, Path.same_iff.mpr rfl⟩
  · intro y hy hsame
    rw [h.eq_of_same (List.mem_filter.mp hy).left hx hsame]

theorem not_same_of_not_admits {m : Memory} {x : PendingEdit} (hx : x ∈ s.pendingEdits)
    (hadmits : ¬ admits m x) : ∀ y ∈ accepted m s.pendingEdits, ¬ y.path.same x.path := by
  intro y hy hsame
  rcases List.mem_filter.mp hy with ⟨hy, hyAdmits⟩
  exact hadmits (h.eq_of_same hy hx hsame ▸ hyAdmits)

end

/-- A second commit takes up what has failed, whatever the store refuses by then. -/
theorem exists_again (hstore : sv.store = Memory.store) {edits : List PendingEdit}
    (hsession : e.sessions.get? id = some s) (hid : s.id = id) (hformed : s.Formed)
    (hpending : s.pendingEdits = edits) : ∃ report₂ e₂,
      (commit sv id).Returns e report₂ e₂ ∧
      report₂.written = (edits.map PendingEdit.path).filter
        (fun p => !e.store.closed.contains p) ∧
      report₂.failed.map FileFailure.path = (edits.map PendingEdit.path).filter
        (fun p => e.store.closed.contains p) := by
  rcases exists_commit hstore hsession hid hformed with
    ⟨report₂, e₂, s₁, e₁, hreturns, hcarried, _⟩
  refine ⟨report₂, e₂, hreturns, ?_, ?_⟩
  · rw [hcarried.written, hpending, List.filter_map]
    rfl
  · have hclosed : (fun x => !admits (e.setSession (usedIn e s)).store x) =
        (fun p => e.store.closed.contains p) ∘ PendingEdit.path := by
      funext x
      exact Bool.not_not _
    rw [hcarried.failed, hpending, List.filter_map, hclosed]
    exact List.map_map

theorem pendingEdits_of_carried {e₁ : Engine Memory π} {s₁ : Session} (hformed : s.Formed)
    (hcarried : Carried id s.pendingEdits (e.setSession (usedIn e s)) (usedIn e s) .empty e₁ s₁
      report) : s₁.pendingEdits = s.pendingEdits.filter fun x => !admits e.store x := by
  rw [hcarried.session]
  exact hformed.values_eraseAll _

theorem workspace_of_carried {e₁ : Engine Memory π} {s₁ : Session} (hformed : s.Formed)
    (habsolute : ∀ d ∈ s.workspace.documents, d.path.isAbsolute)
    (hcarried : Carried id s.pendingEdits (e.setSession (usedIn e s)) (usedIn e s) .empty e₁ s₁
      report) :
    s₁.workspace = s.workspace.putTexts (lastText (accepted e.store s.pendingEdits)) := by
  rw [hcarried.session]
  apply Workspace.commitAll_eq
  intro x hx
  rcases hformed.paths x (List.mem_filter.mp hx).left with ⟨d, hd, hpath⟩
  exact hpath ▸ habsolute d hd

/-- The document that a pending text is for, before and after the accepted texts are put in. -/
theorem exists_document? (hreachable : s.Reachable)
    (habsolute : ∀ d ∈ s.workspace.documents, d.path.isAbsolute) {x : PendingEdit}
    (hx : x ∈ s.pendingEdits) (texts : Path → Option String) :
    ∃ p d ds, s.workspace.document? x.path = some (p, d) ∧
      (s.workspace.putTexts texts).document? x.path =
        some ({ p with documents := ds }, d.put texts) ∧
      d.path = x.path ∧ p.id = x.project := by
  rcases hreachable.formed.paths x hx with ⟨d, hd, hpath⟩
  rcases hreachable.counted x hx (hpath ▸ habsolute d hd) with ⟨p, d, hfound, hplace, hproject⟩
  rcases Workspace.document?_putTexts hfound texts with ⟨ds, hput⟩
  exact ⟨p, d, ds, hfound, hput, hplace, hproject⟩

/-- What is invalidated depends on the projects of the documents that are written. -/
theorem mem_invalidated_of_carried {e₁ : Engine Memory π} {s₁ : Session}
    (hreachable : s.Reachable) (habsolute : ∀ d ∈ s.workspace.documents, d.path.isAbsolute)
    (hcarried : Carried id s.pendingEdits (e.setSession (usedIn e s)) (usedIn e s) .empty e₁ s₁
      report) {q : ProjectId} :
    q ∈ report.invalidated ↔ ∃ path ∈ report.written, ∃ p d,
      s.workspace.document? path = some (p, d) ∧ q ∈ Tables.affectedBy s.graph p.id := by
  have hwritten : report.written = (accepted e.store s.pendingEdits).map PendingEdit.path :=
    hcarried.written
  rw [hcarried.invalidated, mem_addAll, hwritten]
  constructor
  · rintro (hq | ⟨x, hx, hq⟩)
    · cases hq
    · rcases exists_document? hreachable habsolute (List.mem_filter.mp hx).left
        (fun _ => none) with ⟨p, d, _, hfound, _, _, hproject⟩
      exact ⟨x.path, List.mem_map_of_mem hx, p, d, hfound, hproject ▸ hq⟩
  · rintro ⟨path, hpath, p, d, hfound, hq⟩
    rcases List.mem_map.mp hpath with ⟨x, hx, rfl⟩
    rcases exists_document? hreachable habsolute (List.mem_filter.mp hx).left
      (fun _ => none) with ⟨p', d', _, hfound', _, _, hproject⟩
    cases hfound.symm.trans hfound'
    exact Or.inr ⟨x, hx, hproject ▸ hq⟩

/-- The entries that are lost are those of the projects that are reported. -/
theorem entries_of_carried {e₁ : Engine Memory π} {s₁ : Session}
    (hcarried : Carried id s.pendingEdits (e.setSession (usedIn e s)) (usedIn e s) .empty e₁ s₁
      report) (slot : Slot) :
    e₁.schedule.tables.entries.get? slot =
      if slot.session = id ∧ slot.project ∈ report.invalidated then none
      else e.schedule.tables.entries.get? slot := by
  have hlost : slot.project ∈ report.invalidated ↔
      slot.project ∈ (accepted e.store s.pendingEdits).flatMap
        fun x => Tables.affectedBy s.graph x.project := by
    rw [hcarried.invalidated, mem_addAll, List.mem_flatMap]
    constructor
    · rintro (hq | hq)
      · cases hq
      · exact hq
    · exact Or.inr
  simp only [hlost]
  exact hcarried.entries slot

/-- The session is committed once a text has been written and none is left. -/
theorem phaseAfter_eq (report : CommitReport) (s : Session) : phaseAfter report s =
    if report.written ≠ [] ∧ s.pendingEdits = [] then .committed else s.phase := by
  have hsize : s.pending.size = 0 ↔ s.pendingEdits = [] := by
    simp [PathMap.size, Session.pendingEdits, PathMap.values]
  unfold phaseAfter
  congr 1
  simp [hsize, and_comm]

/-- Of a commit each write succeeds or fails for itself. -/
theorem commits_part (hstore : sv.store = Memory.store) (hsession : e.sessions.get? id = some s)
    (hid : s.id = id) (hreachable : s.Reachable)
    (habsolute : ∀ d ∈ s.workspace.documents, d.path.isAbsolute) :
    ∃ report e' s', CommitsPart sv id e s report e' s' := by
  have hformed := hreachable.formed
  rcases exists_commit hstore hsession hid hformed with
    ⟨report, e', s₁, e₁, hreturns, hcarried, hmemory, hschedule, hsessions⟩
  have hpending := pendingEdits_of_carried hformed hcarried
  have hworkspace := workspace_of_carried hformed habsolute hcarried
  have hwritten : report.written = (accepted e.store s.pendingEdits).map PendingEdit.path :=
    hcarried.written
  have hplaces : ∀ q, (∀ p ∈ report.written, ¬ p.same q) →
      ∀ x ∈ accepted e.store s.pendingEdits, ¬ x.path.same q := by
    intro q hq x hx
    apply hq
    rw [hwritten]
    exact List.mem_map_of_mem hx
  refine ⟨report, e', { s₁ with phase := phaseAfter report s₁ }, ?_⟩
  constructor
  case returns => exact hreturns
  case session => rw [hsessions, if_pos rfl]
  case ordered => exact List.pairwise_map.mpr hformed.pairwise_before
  case written => exact hwritten
  case failed => exact hcarried.failed
  case written_file =>
    intro x hx hadmits
    rw [hmemory, hcarried.files]
    exact PathMap.get?_insertAll_of_mem PendingEdit.path PendingEdit.text _
      (pairwise_accepted hformed _) (List.mem_filter.mpr ⟨hx, hadmits⟩)
  case failed_file =>
    intro x hx hadmits
    rw [hmemory, hcarried.files]
    exact PathMap.get?_insertAll PendingEdit.path PendingEdit.text _
      (not_same_of_not_admits hformed hx hadmits)
  case other_file =>
    intro q hq
    rw [hmemory, hcarried.files]
    exact PathMap.get?_insertAll PendingEdit.path PendingEdit.text _ (hplaces q hq)
  case pending => exact hpending
  case written_document =>
    intro x hx hadmits
    rcases exists_document? hreachable habsolute hx (lastText (accepted e.store s.pendingEdits))
      with ⟨p, d, ds, _, hput, hpath, _⟩
    rw [← hworkspace] at hput
    refine ⟨_, _, hput, ?_⟩
    rw [Document.put, hpath, lastText_of_admits hformed hx hadmits]
  case failed_document =>
    intro x hx hadmits
    rcases exists_document? hreachable habsolute hx (lastText (accepted e.store s.pendingEdits))
      with ⟨p, d, ds, hfound, hput, hpath, _⟩
    rw [← hworkspace] at hput
    rw [show s₁.workspace.document? x.path = _ from hput, hfound]
    have hnone := lastText_eq_none (not_same_of_not_admits hformed hx hadmits)
    rw [← hpath] at hnone
    exact congrArg some (Document.put_eq_self_iff.mpr (by simp [hnone]))
  case other_documents =>
    intro before d after hdocuments hother
    show s₁.workspace.documents[before.length]? = some d
    rw [hworkspace]
    apply Workspace.getElem?_documents_putTexts hdocuments
    exact hother.imp_right fun hplace => lastText_eq_none (hplaces _ hplace)
  case root =>
    show s₁.workspace.root = s.workspace.root
    rw [hworkspace]
    rfl
  case layout =>
    show s₁.workspace.projects.map Project.layout = s.workspace.projects.map Project.layout
    rw [hworkspace]
    exact map_layout_putFirstIn [] _
  case kept =>
    rw [hcarried.session]
    rfl
  case others =>
    intro other hother
    rw [hsessions, if_neg hother, hcarried.sessions, if_neg hother]
    show (e.sessions.insert s.id _).get? other = e.sessions.get? other
    rw [Table.get?_insert, if_neg (hid ▸ hother)]
  case nodup_invalidated =>
    rw [hcarried.invalidated]
    exact nodup_addAll _ _ List.nodup_nil
  case invalidated =>
    intro q
    exact mem_invalidated_of_carried hreachable habsolute hcarried
  case entries =>
    intro slot
    rw [hschedule]
    exact entries_of_carried hcarried slot
  case phase =>
    have hphase : s₁.phase = s.phase := by
      rw [hcarried.session]
      rfl
    exact hphase ▸ phaseAfter_eq report s₁
  case again =>
    intro m
    have hsession' : ({ e' with store := m } : Engine Memory π).sessions.get? id =
        some { s₁ with phase := phaseAfter report s₁ } := by
      rw [hsessions, if_pos rfl]
    have hid' : s₁.id = id := by
      rw [hcarried.session]
      exact hid
    have hfailed : report.failed.map FileFailure.path =
        (s.pendingEdits.filter fun x => !admits e.store x).map PendingEdit.path := by
      rw [hcarried.failed]
      exact List.map_map
    rw [hfailed]
    exact exists_again hstore hsession' hid'
      ((hcarried.formed (hformed.step (.use _))).step (.enter _)) hpending

/-!
# One write of two

Two projects with a file each have pending texts, and the file of the second is
closed to writing.
-/

/-- Keeps files in memory. -/
def remembering : Services Memory (List Document) :=
  ⟨Memory.store, echo, fun _ => .ok (.ofNames [])⟩

def linked : Workspace :=
  ⟨⟨"/"⟩, [⟨⟨"a"⟩, "", [⟨⟨"/s"⟩, "old"⟩], [], [], .empty⟩,
    ⟨⟨"b"⟩, "", [⟨⟨"/t"⟩, "old"⟩], [⟨"a"⟩], [], .empty⟩]⟩

def linkedStart : Session :=
  .start ⟨"s"⟩ ⟨"/"⟩ .workspace (.ofNames []) linked 0

/-- The session with a text for each of the files. -/
def linkedStaged : Session :=
  (linkedStart.stage ⟨⟨"a"⟩, ⟨"/s"⟩, "xold"⟩).stage ⟨⟨"b"⟩, ⟨"/t"⟩, "yold"⟩

def linkedEngine : Engine Memory (List Document) :=
  (Engine.new .default ((Memory.ofWorkspace linked).closeTo ⟨"/t"⟩) true).setSession linkedStaged

theorem reachable_linkedStaged : linkedStaged.Reachable := by
  have hstart : linkedStart.Reachable := ⟨_, _, _, _, _, _, .refl⟩
  have hfirst : linkedStart.stageEdit linkedStart.workspace ⟨⟨"/s"⟩, [⟨⟨0, 0⟩, "x"⟩]⟩ =
      .ok (⟨"a"⟩, linkedStart.stage ⟨⟨"a"⟩, ⟨"/s"⟩, "xold"⟩) :=
    Session.stageEdit_eq_ok_iff.mpr ⟨⟨⟨"a"⟩, "", [⟨⟨"/s"⟩, "old"⟩], [], [], .empty⟩,
      ⟨⟨"/s"⟩, "old"⟩, "xold", by decide +kernel, by decide +kernel, rfl, rfl⟩
  have hsecond : (linkedStart.stage ⟨⟨"a"⟩, ⟨"/s"⟩, "xold"⟩).stageEdit linkedStart.workspace
      ⟨⟨"/t"⟩, [⟨⟨0, 0⟩, "y"⟩]⟩ = .ok (⟨"b"⟩, linkedStaged) :=
    Session.stageEdit_eq_ok_iff.mpr ⟨⟨⟨"b"⟩, "", [⟨⟨"/t"⟩, "old"⟩], [⟨"a"⟩], [], .empty⟩,
      ⟨⟨"/t"⟩, "old"⟩, "yold", by decide +kernel, by decide +kernel, rfl, rfl⟩
  exact (hstart.step (.stage hfirst)).step (.stage hsecond)

theorem commits_part_linked : ∃ report e' s',
    CommitsPart remembering ⟨"s"⟩ linkedEngine linkedStaged report e' s' ∧
      report.written = [⟨"/s"⟩] ∧ report.failed.map FileFailure.path = [⟨"/t"⟩] ∧
      s'.pendingEdits = [⟨⟨"b"⟩, ⟨"/t"⟩, "yold"⟩] ∧ ⟨"b"⟩ ∈ report.invalidated ∧
      s'.phase = .staged := by
  have hstore : remembering.store = Memory.store := rfl
  have hsession : linkedEngine.sessions.get? ⟨"s"⟩ = some linkedStaged := rfl
  have habsolute : ∀ d ∈ linkedStaged.workspace.documents, d.path.isAbsolute := by decide +kernel
  rcases commits_part hstore hsession rfl reachable_linkedStaged habsolute with
    ⟨report, e', s', h⟩
  have hwritten : report.written = [⟨"/s"⟩] := h.written.trans (by decide +kernel)
  have hpending : s'.pendingEdits = [⟨⟨"b"⟩, ⟨"/t"⟩, "yold"⟩] := h.pending.trans (by decide +kernel)
  refine ⟨report, e', s', h, hwritten, ?_, hpending, ?_, ?_⟩
  · rw [h.failed]
    decide +kernel
  · rw [h.invalidated, hwritten]
    refine ⟨⟨"/s"⟩, List.mem_singleton_self _, ⟨⟨"a"⟩, "", [⟨⟨"/s"⟩, "old"⟩], [], [], .empty⟩,
      ⟨⟨"/s"⟩, "old"⟩, by decide +kernel, by decide +kernel⟩
  · rw [h.phase, hpending, if_neg (by simp)]
    rfl

end Engine
end Ripple
