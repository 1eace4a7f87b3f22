import Ripple.Engine.Events
import Ripple.Proofs.Engine.Outcomes
import Ripple.Proofs.Engine.Partial
import Ripple.Proofs.Workspace.Owner
import Ripple.Store.Memory

/-!
# What comes of an event on a file

An event is skipped, or one document is read again, or the whole workspace is loaded anew.
Whichever it is, the session, the store and the cache change as the answer says and in
nothing else. The path of a document that is read again is resolved twice on the way, so
what is read again is the document of the event only where a second time makes no
difference.
-/

namespace Ripple

open Cache

variable {σ π : Type}

/-!
# Paths that are resolved twice
-/

namespace Workspace

variable {w : Workspace} {path path' : Path} {p : Project} {d : Document} {text : String}

/-- The path stands for one place, however often it is resolved. -/
def ResolvesOnce (w : Workspace) (path : Path) : Prop :=
  (w.resolve (w.resolve path)).key = (w.resolve path).key

theorem isAbsolute_join {dir : Path} (h : dir.isAbsolute) (p : Path) :
    (dir.join p).isAbsolute := by
  have hhead : dir.text.toList.head? = some '/' := of_decide_eq_true h
  obtain ⟨rest, hrest⟩ := List.head?_eq_some_iff.mp hhead
  unfold Path.join
  split
  · assumption
  · split <;> simp [Path.isAbsolute, hrest]

/-- Absolute paths do, and so do all paths below an absolute root. -/
theorem resolvesOnce_of_isAbsolute (h : path.isAbsolute ∨ w.root.isAbsolute) :
    w.ResolvesOnce path := by
  have habsolute : (w.resolve path).isAbsolute := by
    by_cases hpath : path.isAbsolute
    · rwa [resolve, if_pos hpath]
    · rw [resolve, if_neg hpath]
      exact isAbsolute_join (h.resolve_left hpath) path
  exact congrArg Path.key (if_pos habsolute)

/-- The document of a path stands where that of any other spelling of the path does. -/
theorem Stands.congr {front back : List Project} {before after : List Document}
    (h : w.Stands path p d front back before after)
    (hkey : (w.resolve path').key = (w.resolve path).key) :
    w.Stands path' p d front back before after := by
  have hsame (q : Path) : q.same (w.resolve path') ↔ q.same (w.resolve path) := by
    rw [Path.same_iff, Path.same_iff, hkey]
  exact ⟨h.projects, h.documents, (hsame _).mpr h.same,
    fun q hq other hother hq' => h.front_none q hq other hother ((hsame _).mp hq'),
    fun other hother hq' => h.before_none other hother ((hsame _).mp hq')⟩

theorem Stands.document? {front back : List Project} {before after : List Document}
    (h : w.Stands path p d front back before after) : w.document? path = some (p, d) :=
  document?_eq_some_iff.mpr ⟨front, back, before, after, h⟩

theorem Stands.renewed_self {front back : List Project} {before after : List Document}
    (h : w.Stands path p d front back before after) : h.renewed d.content = w := by
  have hproject : p.renewed d before after d.content = p := by
    rw [Project.renewed, ← h.documents]
  rw [Stands.renewed, hproject, ← h.projects]

/-- The document is then found with the new content. -/
theorem Stands.stands_renewed {front back : List Project} {before after : List Document}
    (h : w.Stands path p d front back before after) (text : String) :
    (h.renewed text).Stands path (p.renewed d before after text) { d with content := text }
      front back before after :=
  ⟨rfl, rfl, h.same, h.front_none, h.before_none⟩

/-- The document of another place is found as it was. -/
theorem Stands.document?_renewed_of_ne {front back : List Project} {before after : List Document}
    (h : w.Stands path p d front back before after) (text : String)
    (hkey : (w.resolve path').key ≠ (w.resolve path).key) {q : Project} {other : Document}
    (hother : w.document? path' = some (q, other)) :
    ∃ ds, (h.renewed text).document? path' = some ({ q with documents := ds }, other) := by
  have hput : w.putTexts (textAt (w.resolve path) text) = h.renewed text := by
    rw [putTexts_textAt, h.setContent?]
    rfl
  rcases document?_putTexts hother (textAt (w.resolve path) text) with ⟨ds, hds⟩
  have hsame := (mem_documents_of_document? hother).right.right
  have hkept : other.put (textAt (w.resolve path) text) = other := by
    refine Document.put_eq_self_iff.mpr fun text' htext => ?_
    unfold textAt at htext
    split at htext
    · rename_i hat
      exact absurd ((Path.same_iff.mp hat).trans (Path.same_iff.mp hsame)) hkey.symm
    · cases htext
  exact ⟨ds, hput ▸ hkept ▸ hds⟩

end Workspace

namespace Engine

variable {sv : Services σ π} {id : SessionId} {e e' : Engine σ π} {s : Session}
  {event : FileEvent}

/-!
# What an event asks for
-/

def FileEvent.isRemoval : FileEvent → Bool
  | .removed _ => true
  | _ => false

/-- The event is about a manifest, a document of the session, or a new source file. -/
def Matters (s : Session) (event : FileEvent) : Prop :=
  isManifest event.path ∨ (s.workspace.document? event.path).isSome ∨
    (¬ event.isRemoval ∧ isSource event.path)

/-- Nothing is to be done about the event. -/
def Passes (s : Session) (event : FileEvent) : Prop :=
  s.isPaused ∨ isIgnored event.path ∨ ¬ Matters s event

/-- The event is about the content of a document. -/
def Touches (s : Session) (event : FileEvent) : Prop :=
  ¬ event.isRemoval ∧ (s.workspace.document? event.path).isSome ∧ ¬ isManifest event.path

theorem returns_of_passes (hsession : e.sessions.get? id = some s) (h : Passes s event) :
    (applyEvent sv id event).Returns e .skipped e := by
  unfold applyEvent
  simp only
  by_cases hignored : isIgnored event.path
  · rw [if_pos hignored]
    exact Operation.ends_pure _ _
  · rw [if_neg hignored]
    refine Operation.returns_bind_iff.mpr
      ⟨s, e, Operation.returns_find_iff.mpr ⟨hsession, rfl⟩, ?_⟩
    rcases h with hpaused | hignored' | hidle
    · rw [if_pos hpaused]
      exact Operation.ends_pure _ _
    · exact absurd hignored' hignored
    · unfold Matters at hidle
      rw [not_or, not_or, not_and] at hidle
      rcases hidle with ⟨hmanifest, hknown, hsource⟩
      by_cases hpaused : s.isPaused
      · rw [if_pos hpaused]
        exact Operation.ends_pure _ _
      · rw [if_neg hpaused, if_neg hmanifest]
        cases event with
        | removed path =>
            simp only [if_neg hknown]
            exact Operation.ends_pure _ _
        | created path | modified path =>
            simp only [if_neg hknown, if_neg (hsource Bool.false_ne_true)]
            exact Operation.ends_pure _ _

/-- What is not skipped is a document read again, or the workspace loaded anew. -/
theorem run_of_not_passes (sv : Services σ π) (hsession : e.sessions.get? id = some s)
    (h : ¬ Passes s event) :
    (Touches s event ∧ (applyEvent sv id event).run e =
      (do pure (.reloaded (← reload sv id event.path)) : Operation σ π EventOutcome).run e) ∨
    (¬ Touches s event ∧ (applyEvent sv id event).run e =
      (do
        refresh sv id
        pure .refreshed : Operation σ π EventOutcome).run e) := by
  unfold Passes at h
  rw [not_or, not_or, not_not] at h
  rcases h with ⟨hpaused, hignored, hmatters⟩
  have hfind : (Operation.find id).Returns e s e :=
    Operation.returns_find_iff.mpr ⟨hsession, rfl⟩
  unfold applyEvent Touches
  simp only [if_neg hignored]
  rw [hfind.run_bind, if_neg hpaused]
  by_cases hmanifest : isManifest event.path
  · rw [if_pos hmanifest]
    exact .inr ⟨fun htouches => htouches.right.right hmanifest, rfl⟩
  · rw [if_neg hmanifest]
    have hrest := hmatters.resolve_left hmanifest
    by_cases hknown : (s.workspace.document? event.path).isSome
    · cases event with
      | removed path =>
          right
          constructor
          · exact fun htouches => htouches.left rfl
          · simp only [if_pos hknown]
      | created path | modified path =>
          left
          constructor
          · exact ⟨Bool.false_ne_true, hknown, hmanifest⟩
          · simp only [if_pos hknown]
    · rcases hrest.resolve_left hknown with ⟨hremoval, hsource⟩
      right
      constructor
      · exact fun htouches => hknown htouches.right.left
      · cases event with
        | removed path => exact absurd rfl hremoval
        | created path | modified path => simp only [if_neg hknown, if_pos hsource]

/-!
# What comes of it
-/

/-- A document is read again: what the file says is its content. If that is new then what it
invalidates has left the cache. Every other document stays as it was, and so does all else in
the session, the other sessions and the store. -/
inductive Rereads (sv : Services σ π) (id : SessionId) (e : Engine σ π) (s : Session)
    (file path : Path) (invalidated : List ProjectId) (e' : Engine σ π) : Prop where
  | intro {p : Project} {d : Document} {front back : List Project}
      {before after : List Document} {text : String}
      (stands : s.workspace.Stands path p d front back before after)
      (read : sv.store.read e.store file = .ok text)
      (invalidated_eq :
        invalidated = if text = d.content then [] else Tables.affectedBy s.graph p.id)
      (session : e'.sessions.get? id = some { s with workspace := stands.renewed text })
      (found : (stands.renewed text).document? path =
        some (p.renewed d before after text, { d with content := text }))
      (others : ∀ other ≠ id, e'.sessions.get? other = e.sessions.get? other)
      (store : e'.store = e.store)
      (entries : ∀ slot, e'.schedule.tables.entries.get? slot =
        if slot.session = id ∧ slot.project ∈ invalidated then none
        else e.schedule.tables.entries.get? slot)

/-- The workspace is what has been loaded, nothing is pending, and nothing of the session is
in the cache. -/
structure Renews (sv : Services σ π) (id : SessionId) (e : Engine σ π) (s : Session)
    (w : Workspace) (e' : Engine σ π) : Prop where
  load : sv.store.load e.store s.source s.root = (.ok w, e'.store)
  session : ∃ batch, e'.sessions.get? id = some { s with
    workspace := w, graph := .build w, pending := ∅, phase := .clean
    lastAccess := e.clock, prewarm := batch }
  others : ∀ other ≠ id, e'.sessions.get? other = e.sessions.get? other
  entries : ∀ slot, e'.schedule.tables.entries.get? slot =
    if slot.session = id then none else e.schedule.tables.entries.get? slot

/-- Nothing has changed but when the session was last used, and the store as far as a load
that fails changes it. -/
structure Unfolded (sv : Services σ π) (id : SessionId) (e : Engine σ π) (s : Session)
    (e' : Engine σ π) : Prop where
  session : ∃ now, e'.sessions.get? id = some { s with lastAccess := now }
  others : ∀ other ≠ id, e'.sessions.get? other = e.sessions.get? other
  schedule : e'.schedule = e.schedule
  store : e'.store = e.store ∨
    ∃ cause, sv.store.load e.store s.source s.root = (.error cause, e'.store)

theorem Unfolded.refl (hsession : e.sessions.get? id = some s) : Unfolded sv id e s e :=
  ⟨⟨s.lastAccess, hsession⟩, fun _ _ => rfl, rfl, .inl rfl⟩

theorem get?_setSession_of_ne {t : Session} {other : SessionId} (hother : other ≠ t.id) :
    (e.setSession t).sessions.get? other = e.sessions.get? other :=
  Table.get?_insert_of_ne _ hother _

theorem rereads_refolding (hkeyed : s.id = id) {path : Path} {p : Project} {d : Document}
    {front back : List Project} {before after : List Document}
    (hstands : s.workspace.Stands path p d front back before after) {file : Path}
    {text : String} (hread : sv.store.read e.store file = .ok text) (hnew : text ≠ d.content) :
    Rereads sv id e s file path (Tables.affectedBy s.graph p.id)
      (e.refolding s path p.id text) := by
  subst hkeyed
  have hupdated : ((s.updateDocument path text).map Prod.snd).getD s =
      { s with workspace := hstands.renewed text } := by
    rw [Session.updateDocument_getD, hstands.setContent?]
    rfl
  unfold refolding
  rw [hupdated]
  refine .intro hstands hread (if_neg hnew).symm (Table.get?_insert_self _ _ _)
    (hstands.stands_renewed text).document? ?_ rfl ?_
  · intro other hother
    exact Table.get?_insert_of_ne _ hother _
  · intro slot
    exact Tables.entries_invalidateAll _ _ _ slot

theorem rereads_self (hsession : e.sessions.get? id = some s) {path : Path} {p : Project}
    {d : Document} {front back : List Project} {before after : List Document}
    (hstands : s.workspace.Stands path p d front back before after) {file : Path}
    (hread : sv.store.read e.store file = .ok d.content) : Rereads sv id e s file path [] e := by
  refine .intro hstands hread (if_pos rfl).symm ?_
    (hstands.stands_renewed d.content).document? (fun _ _ => rfl) rfl ?_
  · rw [hstands.renewed_self]
    exact hsession
  · intro slot
    simp

theorem tables_abortPrewarm (e : Engine σ π) (s : Session) :
    (e.abortPrewarm s).schedule.tables = e.schedule.tables := by
  unfold Engine.abortPrewarm
  cases s.prewarm <;> rfl

theorem tables_prewarm (e : Engine σ π) (s : Session) :
    (e.prewarm s).schedule.tables = e.schedule.tables := by
  simp only [Engine.prewarm]
  split
  · rfl
  · exact tables_abortPrewarm e s

theorem renews_renewing (hkeyed : s.id = id) {w : Workspace} {store : σ}
    (hload : sv.store.load e.store s.source s.root = (.ok w, store)) :
    Renews sv id e s w
      ((e.renewing s w store).prewarm (renewed { s with lastAccess := e.clock } w)) := by
  subst hkeyed
  let used : Session := { s with lastAccess := e.clock }
  let loaded : Engine σ π := { e.setSession used with store := store }
  have hput : (e.renewing s w store).sessions.get? s.id = some (renewed used w) :=
    Table.get?_insert_self _ _ _
  have hstore : ((e.renewing s w store).prewarm (renewed used w)).store = store := by
    have habort : (loaded.abortPrewarm s).store = store := by
      unfold Engine.abortPrewarm
      cases s.prewarm <;> rfl
    simp only [Engine.prewarm]
    split <;> exact habort
  have hothers : ∀ other ≠ s.id, (loaded.abortPrewarm s).sessions.get? other =
      e.sessions.get? other := by
    intro other hother
    unfold Engine.abortPrewarm
    cases s.prewarm <;> exact get?_setSession_of_ne (t := used) hother
  constructor
  · rw [hstore]
    exact hload
  · exact get?_prewarm hput rfl
  · intro other hother
    have hrenewing : (e.renewing s w store).sessions.get? other = e.sessions.get? other :=
      (Table.get?_insert_of_ne _ hother _).trans (hothers other hother)
    simp only [Engine.prewarm]
    split
    · exact hrenewing
    · exact (Table.get?_insert_of_ne _ hother _).trans hrenewing
  · intro slot
    rw [tables_prewarm]
    change ((loaded.abortPrewarm s).schedule.tables.invalidateSession s.id).entries.get? slot = _
    rw [tables_abortPrewarm]
    change (e.schedule.tables.entries.filter fun slot _ => slot.session ≠ s.id).get? slot = _
    rw [Table.get?_filter_keys e.schedule.tables.entries fun slot : Slot => slot.session ≠ s.id]
    by_cases hslot : slot.session = s.id <;> simp [hslot]

/-- The ends that an event can come to. -/
inductive Folds (sv : Services σ π) (id : SessionId) (e : Engine σ π) (s : Session)
    (event : FileEvent) : Except Error EventOutcome → Engine σ π → Prop where
  | skipped (passes : Passes s event) : Folds sv id e s event (.ok .skipped) e
  | reread {l : List ProjectId} {e' : Engine σ π} (new : ¬ Passes s event)
      (touches : Touches s event)
      (rereads : Rereads sv id e s (s.workspace.resolve event.path)
        (s.workspace.resolve event.path) l e') :
      Folds sv id e s event (.ok (.reloaded l)) e'
  | renewed {w : Workspace} {e' : Engine σ π} (new : ¬ Passes s event)
      (other : ¬ Touches s event) (renews : Renews sv id e s w e') :
      Folds sv id e s event (.ok .refreshed) e'
  | failed {error : Error} {e' : Engine σ π} (new : ¬ Passes s event)
      (unfolded : Unfolded sv id e s e') : Folds sv id e s event (.error error) e'

theorem ends_reload_of_touches (sv : Services σ π) (hsession : e.sessions.get? id = some s)
    (hkeyed : s.id = id) (hnew : ¬ Passes s event) (htouches : Touches s event) :
    ∃ result e', (reload sv id event.path).Ends e result e' ∧
      Folds sv id e s event (result.map .reloaded) e' := by
  cases hfound : s.workspace.document? (s.workspace.resolve event.path) with
  | none => exact ⟨_, e, ends_reload_of_missing hsession hfound, .failed hnew (.refl hsession)⟩
  | some found =>
      rcases Workspace.document?_eq_some_iff.mp hfound with ⟨front, back, before, after, hstands⟩
      cases hread : sv.store.read e.store (s.workspace.resolve event.path) with
      | error cause =>
          exact ⟨_, e, ends_reload_of_unreadable hsession hfound hread,
            .failed hnew (.refl hsession)⟩
      | ok text =>
          by_cases hsame : text = found.2.content
          · subst hsame
            exact ⟨.ok [], e, returns_reload_of_same hsession hfound hread,
              .reread hnew htouches (rereads_self hsession hstands hread)⟩
          · exact ⟨.ok _, _, returns_reload hsession hkeyed hfound hread hsame,
              .reread hnew htouches (rereads_refolding hkeyed hstands hread hsame)⟩

theorem ends_refresh_of_not_touches (sv : Services σ π)
    (hsession : e.sessions.get? id = some s) (hkeyed : s.id = id) (hnew : ¬ Passes s event)
    (hother : ¬ Touches s event) :
    ∃ result e', (refresh sv id).Ends e result e' ∧
      Folds sv id e s event (result.map fun _ => .refreshed) e' := by
  rcases hload : sv.store.load e.store s.source s.root with ⟨cause | w, store⟩
  · refine ⟨_, _, ends_refresh_of_error hsession hload, .failed hnew ⟨⟨e.clock, ?_⟩, ?_, rfl, ?_⟩⟩
    · subst hkeyed
      exact Table.get?_insert_self _ _ _
    · subst hkeyed
      exact fun other hother => Table.get?_insert_of_ne _ hother _
    · exact .inr ⟨cause, hload⟩
  · exact ⟨.ok (), _, returns_refresh hsession hkeyed hload,
      .renewed hnew hother (renews_renewing hkeyed hload)⟩

/-- An event comes to one of these ends. -/
theorem exists_folds (sv : Services σ π) (hsession : e.sessions.get? id = some s)
    (hkeyed : s.id = id) (event : FileEvent) :
    ∃ result e', (applyEvent sv id event).Ends e result e' ∧ Folds sv id e s event result e' := by
  by_cases hpasses : Passes s event
  · exact ⟨.ok .skipped, e, returns_of_passes hsession hpasses, .skipped hpasses⟩
  · rcases run_of_not_passes sv hsession hpasses with ⟨htouches, hrun⟩ | ⟨hother, hrun⟩
    · rcases ends_reload_of_touches sv hsession hkeyed hpasses htouches with
        ⟨result, e', hends, hfolds⟩
      exact ⟨_, e', hrun.trans (hends.map _), hfolds⟩
    · rcases ends_refresh_of_not_touches sv hsession hkeyed hpasses hother with
        ⟨result, e', hends, hfolds⟩
      exact ⟨_, e', hrun.trans (hends.map fun _ => EventOutcome.refreshed), hfolds⟩

/-- What is found out about a run holds of the end that it comes to. -/
theorem folds_of_ends (hsession : e.sessions.get? id = some s) (hkeyed : s.id = id)
    {result : Except Error EventOutcome} (h : (applyEvent sv id event).Ends e result e') :
    Folds sv id e s event result e' := by
  rcases exists_folds sv hsession hkeyed event with ⟨result', e₁, hends, hfolds⟩
  have heq := Prod.mk.inj (h.symm.trans hends)
  have hresult : result = result' := by
    cases result <;> cases result' <;> simp_all [Except.mapError]
  rw [hresult, heq.right]
  exact hfolds

/-!
# The document of the event
-/

/-- The document of a path has the text of a file. -/
def InSync (sv : Services σ π) (e : Engine σ π) (s : Session) (file path : Path) : Prop :=
  ∃ p d, s.workspace.document? path = some (p, d) ∧ sv.store.read e.store file = .ok d.content

/-- What has been read again is the document of the event, unless its path resolves to another
place the second time; then it only looks as if it were, when there was nothing to be done. -/
theorem rereads_iff {path : Path} {l : List ProjectId}
    (h : Rereads sv id e s (s.workspace.resolve path) (s.workspace.resolve path) l e') :
    Rereads sv id e s (s.workspace.resolve path) path l e' ↔
      s.workspace.ResolvesOnce path ∨
        InSync sv e s (s.workspace.resolve path) path ∧
          InSync sv e s (s.workspace.resolve path) (s.workspace.resolve path) := by
  cases h with
  | @intro p d front back before after text hstands hread hl hput _ hothers hstore hentries =>
      constructor
      · intro h'
        cases h' with
        | @intro p' d' front' back' before' after' text' hstands' hread' _ hput' _ _ _ _ =>
            cases hread.symm.trans hread'
            by_cases honce : s.workspace.ResolvesOnce path
            · exact .inl honce
            · have hsame : hstands.renewed text = hstands'.renewed text :=
                congrArg Session.workspace (Option.some.inj (hput.symm.trans hput'))
              -- Each of the two documents has been given the text, and has been left alone.
              have htext : d.content = text := by
                rcases hstands'.document?_renewed_of_ne text honce hstands.document? with ⟨ds, hds⟩
                have hfound := (hstands.stands_renewed text).document?
                rw [hsame, hds] at hfound
                exact congrArg (fun found => found.2.content) (Option.some.inj hfound)
              have htext' : d'.content = text := by
                rcases hstands.document?_renewed_of_ne text (Ne.symm honce)
                  hstands'.document? with ⟨ds, hds⟩
                have hfound := (hstands'.stands_renewed text).document?
                rw [← hsame, hds] at hfound
                exact congrArg (fun found => found.2.content) (Option.some.inj hfound)
              exact .inr ⟨⟨p', d', hstands'.document?, htext' ▸ hread⟩,
                p, d, hstands.document?, htext ▸ hread⟩
      · rintro (honce | ⟨⟨p', d', hfound', hread'⟩, p₁, d₁, hfound, hread₁⟩)
        · have hcongr := hstands.congr honce.symm
          exact .intro hcongr hread hl hput (hcongr.stands_renewed text).document? hothers hstore
            hentries
        · cases hstands.document?.symm.trans hfound
          cases hread.symm.trans hread₁
          rcases Workspace.document?_eq_some_iff.mp hfound' with
            ⟨front', back', before', after', hstands'⟩
          rw [if_pos rfl] at hl
          rw [hstands.renewed_self] at hput
          refine .intro hstands' hread' (hl.trans (if_pos rfl).symm) ?_
            (hstands'.stands_renewed _).document? hothers hstore hentries
          rw [hstands'.renewed_self]
          exact hput

/-!
# Any event
-/

/-- No events change a session that is paused. -/
theorem returns_mapM_of_paused (hsession : e.sessions.get? id = some s) (hpaused : s.isPaused)
    (events : List FileEvent) :
    (events.mapM (applyEvent sv id)).Returns e (events.map fun _ => .skipped) e := by
  induction events with
  | nil => exact Operation.returns_pure_iff.mpr ⟨rfl, rfl⟩
  | cons event events ih =>
      rw [List.mapM_cons, List.map_cons]
      refine Operation.returns_bind_iff.mpr
        ⟨.skipped, e, returns_of_passes hsession (.inl hpaused), ?_⟩
      exact Operation.returns_bind_iff.mpr ⟨_, e, ih, Operation.returns_pure_iff.mpr ⟨rfl, rfl⟩⟩

/-- An event that is to be skipped is skipped and changes nothing, and no others are. Where
an event is answered with a document read again, it was about the content of a known document,
and that is the one that has been read unless its path resolves to another place the second
time. Where it is answered with a refresh, the workspace is the one that was loaded. Where it
fails, nothing has changed. -/
theorem event_folded (hsession : e.sessions.get? id = some s) (hkeyed : s.id = id)
    (event : FileEvent) :
    (Passes s event → (applyEvent sv id event).Returns e .skipped e) ∧
    (∀ e', (applyEvent sv id event).Returns e .skipped e' → Passes s event ∧ e' = e) ∧
    (s.isPaused → ∀ events : List FileEvent,
      (events.mapM (applyEvent sv id)).Returns e (events.map fun _ => .skipped) e) ∧
    (∀ l e', (applyEvent sv id event).Returns e (.reloaded l) e' →
      Touches s event ∧
      Rereads sv id e s (s.workspace.resolve event.path) (s.workspace.resolve event.path) l e' ∧
      (Rereads sv id e s (s.workspace.resolve event.path) event.path l e' ↔
        s.workspace.ResolvesOnce event.path ∨
          InSync sv e s (s.workspace.resolve event.path) event.path ∧
            InSync sv e s (s.workspace.resolve event.path) (s.workspace.resolve event.path))) ∧
    (∀ e', (applyEvent sv id event).Returns e .refreshed e' →
      ¬ Touches s event ∧ ∃ w, Renews sv id e s w e') ∧
    ∀ halt e', (applyEvent sv id event).run e = (.error halt, e') →
      (∃ error, halt = .failed error) ∧ Unfolded sv id e s e' := by
  refine ⟨returns_of_passes hsession, ?_, returns_mapM_of_paused hsession, ?_, ?_, ?_⟩
  · intro e' hreturns
    have hends : (applyEvent sv id event).Ends e (.ok .skipped) e' := hreturns
    cases folds_of_ends hsession hkeyed hends with
    | skipped hpasses => exact ⟨hpasses, rfl⟩
  · intro l e' hreturns
    have hends : (applyEvent sv id event).Ends e (.ok (.reloaded l)) e' := hreturns
    cases folds_of_ends hsession hkeyed hends with
    | reread _ htouches hrereads => exact ⟨htouches, hrereads, rereads_iff hrereads⟩
  · intro e' hreturns
    have hends : (applyEvent sv id event).Ends e (.ok .refreshed) e' := hreturns
    cases folds_of_ends hsession hkeyed hends with
    | renewed _ hother hrenews => exact ⟨hother, _, hrenews⟩
  · intro halt e' hrun
    rcases exists_folds sv hsession hkeyed event with ⟨result, e₁, hends, hfolds⟩
    cases result with
    | ok outcome => cases hrun.symm.trans hends
    | error error =>
        cases hrun.symm.trans hends
        cases hfolds with
        | failed _ hunfolded => exact ⟨⟨error, rfl⟩, hunfolded⟩

/-!
# A directory of the name of the root

For an example, a document stands where the path of another one leads to the second time, if
the root is not absolute.
-/

def nested (root : String) : Workspace :=
  ⟨⟨root⟩, [⟨⟨"a"⟩, "a", [⟨⟨root ++ "/a.arb"⟩, "def alpha\n"⟩,
    ⟨⟨root ++ "/repo/a.arb"⟩, "def beta\n"⟩], [], [], ⟨[]⟩⟩]⟩

def nestedServices : Services Memory (List Document) :=
  ⟨Memory.store, echo, fun _ => .ok (.ofNames [])⟩

def nestedSession (root : String) : Session :=
  .start ⟨"s"⟩ ⟨root⟩ .workspace (.ofNames []) (nested root) 0

/-- The file of the first document has been changed. -/
def nestedEngine (root : String) : Engine Memory (List Document) :=
  let store := Memory.ofWorkspace (nested root)
  (Engine.new .default
    { store with files := store.files.insert ⟨root ++ "/a.arb"⟩ "def gamma\n" } true).setSession
      (nestedSession root)

/-- The event of the change. -/
def nestedEvent : FileEvent := .modified ⟨"a.arb"⟩

/-- With an absolute root the document of the event is read again. -/
theorem event_folded_nested : ∃ e',
    (applyEvent nestedServices ⟨"s"⟩ nestedEvent).Returns (nestedEngine "/repo")
      (.reloaded [⟨"a"⟩]) e' ∧
      Rereads nestedServices ⟨"s"⟩ (nestedEngine "/repo") (nestedSession "/repo") ⟨"/repo/a.arb"⟩
        ⟨"a.arb"⟩ [⟨"a"⟩] e' := by
  have hreturns : (applyEvent nestedServices ⟨"s"⟩ nestedEvent).Returns (nestedEngine "/repo")
      (.reloaded [⟨"a"⟩])
      ((applyEvent nestedServices ⟨"s"⟩ nestedEvent).run (nestedEngine "/repo")).2 :=
    Prod.ext (by decide +kernel) rfl
  have hsession : (nestedEngine "/repo").sessions.get? ⟨"s"⟩ = some (nestedSession "/repo") := rfl
  have hfolded := (event_folded hsession rfl nestedEvent).right.right.right.left _ _ hreturns
  refine ⟨_, hreturns, hfolded.right.right.mpr (.inl ?_)⟩
  exact Workspace.resolvesOnce_of_isAbsolute (.inr (by decide))

/-- With a relative root the file of one document is read, and its text becomes the content of
another one. -/
theorem event_folded_elsewhere : ∃ e' s',
    (applyEvent nestedServices ⟨"s"⟩ nestedEvent).Returns (nestedEngine "repo")
      (.reloaded [⟨"a"⟩]) e' ∧
      e'.sessions.get? ⟨"s"⟩ = some s' ∧
      nestedServices.store.read e'.store ⟨"repo/a.arb"⟩ = .ok "def gamma\n" ∧
      (s'.workspace.document? ⟨"a.arb"⟩).map (fun found => found.2.content) =
        some "def alpha\n" ∧
      s'.workspace.documents =
        [⟨⟨"repo/a.arb"⟩, "def alpha\n"⟩, ⟨⟨"repo/repo/a.arb"⟩, "def gamma\n"⟩] ∧
      ¬ Rereads nestedServices ⟨"s"⟩ (nestedEngine "repo") (nestedSession "repo")
        ⟨"repo/a.arb"⟩ ⟨"a.arb"⟩ [⟨"a"⟩] e' := by
  generalize hrun : (applyEvent nestedServices ⟨"s"⟩ nestedEvent).run (nestedEngine "repo") = run
  have hafter : (run.2.sessions.get? ⟨"s"⟩).map (fun s =>
      ((s.workspace.document? ⟨"a.arb"⟩).map fun found => found.2.content,
        s.workspace.documents)) =
      some (some "def alpha\n",
        [⟨⟨"repo/a.arb"⟩, "def alpha\n"⟩, ⟨⟨"repo/repo/a.arb"⟩, "def gamma\n"⟩]) := by
    rw [← hrun]
    decide +kernel
  rcases Option.map_eq_some_iff.mp hafter with ⟨s', hs', heq⟩
  rcases Prod.mk.inj heq with ⟨hcontent, hdocuments⟩
  have hanswer : run.1 = .ok (.reloaded [⟨"a"⟩]) := by
    rw [← hrun]
    decide +kernel
  have hread : nestedServices.store.read run.2.store ⟨"repo/a.arb"⟩ = .ok "def gamma\n" := by
    rw [← hrun]
    decide +kernel
  refine ⟨run.2, s', hrun.trans (Prod.ext hanswer rfl), hs', hread, hcontent, hdocuments, ?_⟩
  intro hrereads
  cases hrereads with
  | intro _ hread' _ hsession hfound _ hstore _ =>
      rw [hstore] at hread
      cases hread.symm.trans hread'
      cases hs'.symm.trans hsession
      rw [hfound, Option.map_some, Option.some.injEq] at hcontent
      change "def gamma\n" = "def alpha\n" at hcontent
      exact absurd hcontent (by decide)

end Engine
end Ripple
