import Ripple.Proofs.Path.Map
import Ripple.Session.Basic

/-!
# Replacing contents one by one

Replacing the content of one document after the other comes to one pass through
the workspace that gives every text to the first document of its path. Overriding
gives it to all of them. This says when the two are the same.
-/

namespace Ripple

/-!
# One pass
-/

namespace Document

/-- The document with the text that its path is given, if any. -/
def put (texts : Path → Option String) (d : Document) : Document :=
  match texts d.path with
  | some text => { d with content := text }
  | none => d

theorem path_put (texts : Path → Option String) (d : Document) :
    (d.put texts).path = d.path := by
  unfold put
  cases texts d.path <;> rfl

theorem put_put (f g : Path → Option String) (d : Document) :
    (d.put f).put g = d.put fun q => (g q).or (f q) := by
  rw [put, path_put]
  cases hg : g d.path with
  | some text =>
      unfold put
      cases f d.path <;> simp [hg]
  | none =>
      unfold put
      cases hf : f d.path <;> simp [hg, hf]

theorem put_eq_self_iff {texts : Path → Option String} {d : Document} :
    d.put texts = d ↔ ∀ text, texts d.path = some text → d.content = text := by
  unfold put
  cases texts d.path with
  | none => simp
  | some text =>
      constructor
      · intro h text' htext
        cases htext
        rw [← h]
      · intro h
        rw [← h text rfl]

end Document

/-- Gives texts to the documents whose paths have not been seen before. -/
def putFirst (texts : Path → Option String) : List Path → List Document → List Document
  | _, [] => []
  | seen, d :: ds =>
      (if ∃ q ∈ seen, q.same d.path then d else d.put texts) ::
        putFirst texts (d.path :: seen) ds

def putFirstIn (texts : Path → Option String) : List Path → List Project → List Project
  | _, [] => []
  | seen, p :: ps =>
      { p with documents := putFirst texts seen p.documents } ::
        putFirstIn texts (p.documents.map Document.path ++ seen) ps

def Workspace.putTexts (w : Workspace) (texts : Path → Option String) : Workspace :=
  { w with projects := putFirstIn texts [] w.projects }

variable {f g texts : Path → Option String}

theorem map_path_putFirst (seen : List Path) (ds : List Document) :
    (putFirst texts seen ds).map Document.path = ds.map Document.path := by
  induction ds generalizing seen with
  | nil => rfl
  | cons d ds ih =>
      rw [putFirst, List.map_cons, List.map_cons, ih]
      split
      · rfl
      · rw [Document.path_put]

theorem putFirst_none (seen : List Path) (ds : List Document) :
    putFirst (fun _ => none) seen ds = ds := by
  induction ds generalizing seen with
  | nil => rfl
  | cons d ds ih =>
      rw [putFirst, ih]
      split <;> rfl

theorem putFirst_putFirst (seen : List Path) (ds : List Document) :
    putFirst g seen (putFirst f seen ds) = putFirst (fun q => (g q).or (f q)) seen ds := by
  induction ds generalizing seen with
  | nil => rfl
  | cons d ds ih =>
      simp only [putFirst]
      by_cases hseen : ∃ q ∈ seen, q.same d.path
      · rw [if_pos hseen, if_pos hseen, if_pos hseen, ih]
      · rw [if_neg hseen, if_neg hseen, Document.path_put, if_neg hseen, Document.put_put, ih]

theorem putFirstIn_none (seen : List Path) (ps : List Project) :
    putFirstIn (fun _ => none) seen ps = ps := by
  induction ps generalizing seen with
  | nil => rfl
  | cons p ps ih => rw [putFirstIn, putFirst_none, ih]

theorem putFirstIn_putFirstIn (seen : List Path) (ps : List Project) :
    putFirstIn g seen (putFirstIn f seen ps) =
      putFirstIn (fun q => (g q).or (f q)) seen ps := by
  induction ps generalizing seen with
  | nil => rfl
  | cons p ps ih =>
      simp only [putFirstIn, putFirst_putFirst, map_path_putFirst, ih]

/-!
# One text
-/

/-- The text for one place only. -/
def textAt (path : Path) (text : String) (q : Path) : Option String :=
  if path.same q then some text else none

theorem setFirstDocument_eq_none {path : Path} {text : String} {ds : List Document}
    (h : Workspace.setFirstDocument path text ds = none) : ∀ d ∈ ds, ¬ d.path.same path := by
  induction ds with
  | nil => nofun
  | cons d ds ih =>
      unfold Workspace.setFirstDocument at h
      split at h
      · cases h
      · rename_i hd
        exact List.forall_mem_cons.mpr ⟨hd, ih (Option.map_eq_none_iff.mp h)⟩

theorem exists_of_setFirstDocument {path : Path} {text : String} {ds ds' : List Document}
    (h : Workspace.setFirstDocument path text ds = some ds') : ∃ d ∈ ds, d.path.same path := by
  induction ds generalizing ds' with
  | nil => cases h
  | cons d ds ih =>
      unfold Workspace.setFirstDocument at h
      split at h
      · rename_i hd
        exact ⟨d, List.mem_cons_self, hd⟩
      · rcases Option.map_eq_some_iff.mp h with ⟨rest, hrest, _⟩
        rcases ih hrest with ⟨d', hd', hsame⟩
        exact ⟨d', List.mem_cons_of_mem _ hd', hsame⟩

theorem putFirst_of_seen {path : Path} {text : String} {seen : List Path} {ds : List Document}
    (h : ∃ q ∈ seen, q.same path) : putFirst (textAt path text) seen ds = ds := by
  induction ds generalizing seen with
  | nil => rfl
  | cons d ds ih =>
      rcases h with ⟨q, hq, hsame⟩
      rw [putFirst, ih ⟨q, List.mem_cons_of_mem _ hq, hsame⟩]
      split
      · rfl
      · rename_i hnew
        rw [Document.put_eq_self_iff.mpr]
        intro text' htext
        unfold textAt at htext
        split at htext
        · rename_i hd
          exact absurd ⟨q, hq, Path.same_iff.mpr
            ((Path.same_iff.mp hsame).trans (Path.same_iff.mp hd))⟩ hnew
        · cases htext

theorem putFirst_textAt {path : Path} {text : String} {seen : List Path} {ds : List Document}
    (h : ∀ q ∈ seen, ¬ q.same path) :
    putFirst (textAt path text) seen ds =
      (Workspace.setFirstDocument path text ds).getD ds := by
  induction ds generalizing seen with
  | nil => rfl
  | cons d ds ih =>
      rw [putFirst, Workspace.setFirstDocument]
      by_cases hd : d.path.same path
      · have hkey := Path.same_iff.mp hd
        have hnew : ¬ ∃ q ∈ seen, q.same d.path := by
          rintro ⟨q, hq, hsame⟩
          exact h q hq (Path.same_iff.mpr ((Path.same_iff.mp hsame).trans hkey))
        have htext : textAt path text d.path = some text := by
          rw [textAt, if_pos (Path.same_iff.mpr hkey.symm)]
        rw [if_neg hnew, if_pos hd, putFirst_of_seen ⟨d.path, List.mem_cons_self, hd⟩]
        simp [Document.put, htext]
      · have hput : d.put (textAt path text) = d := by
          refine Document.put_eq_self_iff.mpr fun text' htext => ?_
          unfold textAt at htext
          split at htext
          · rename_i hsame
            exact absurd (Path.same_iff.mpr (Path.same_iff.mp hsame).symm) hd
          · cases htext
        rw [hput, ite_self, if_neg hd, ih (List.forall_mem_cons.mpr ⟨hd, h⟩)]
        cases Workspace.setFirstDocument path text ds <;> rfl

theorem putFirstIn_of_seen {path : Path} {text : String} {seen : List Path}
    {ps : List Project} (h : ∃ q ∈ seen, q.same path) :
    putFirstIn (textAt path text) seen ps = ps := by
  induction ps generalizing seen with
  | nil => rfl
  | cons p ps ih =>
      rcases h with ⟨q, hq, hsame⟩
      rw [putFirstIn, putFirst_of_seen ⟨q, hq, hsame⟩, ih ⟨q, List.mem_append_right _ hq, hsame⟩]

theorem putFirstIn_textAt {path : Path} {text : String} {seen : List Path}
    {ps : List Project} (h : ∀ q ∈ seen, ¬ q.same path) :
    putFirstIn (textAt path text) seen ps =
      (Workspace.setFirstProject path text ps).getD ps := by
  induction ps generalizing seen with
  | nil => rfl
  | cons p ps ih =>
      rw [putFirstIn, putFirst_textAt h, Workspace.setFirstProject]
      cases hset : Workspace.setFirstDocument path text p.documents with
      | some ds =>
          rcases exists_of_setFirstDocument hset with ⟨d, hd, hsame⟩
          rw [putFirstIn_of_seen
            ⟨d.path, List.mem_append_left _ (List.mem_map_of_mem hd), hsame⟩]
          rfl
      | none =>
          rw [ih]
          · cases Workspace.setFirstProject path text ps <;> rfl
          · intro q hq
            rcases List.mem_append.mp hq with hq | hq
            · rcases List.mem_map.mp hq with ⟨d, hd, rfl⟩
              exact setFirstDocument_eq_none hset d hd
            · exact h q hq

/-!
# Several texts
-/

/-- The text of the last edit of a place. -/
def lastText : List PendingEdit → Path → Option String
  | [], _ => none
  | e :: es, q => (lastText es q).or (textAt e.path e.text q)

theorem lastText_eq_none {edits : List PendingEdit} {q : Path}
    (h : ∀ e ∈ edits, ¬ e.path.same q) : lastText edits q = none := by
  induction edits with
  | nil => rfl
  | cons e es ih =>
      rcases List.forall_mem_cons.mp h with ⟨he, hes⟩
      rw [lastText, ih hes, textAt, if_neg he]
      rfl

theorem lastText_eq_some {edits : List PendingEdit} {q : Path} {text : String}
    (hexists : ∃ e ∈ edits, e.path.same q)
    (h : ∀ e ∈ edits, e.path.same q → e.text = text) : lastText edits q = some text := by
  induction edits with
  | nil =>
      rcases hexists with ⟨_, he, _⟩
      cases he
  | cons e es ih =>
      rcases List.forall_mem_cons.mp h with ⟨he, hes⟩
      rw [lastText]
      by_cases hrest : ∃ e ∈ es, e.path.same q
      · rw [ih hrest hes]
        rfl
      · have hsame : e.path.same q := by
          rcases hexists with ⟨e', he', hsame⟩
          rcases List.mem_cons.mp he' with rfl | he'
          · exact hsame
          · exact absurd ⟨e', he', hsame⟩ hrest
        rw [lastText_eq_none fun e' he' hsame' => hrest ⟨e', he', hsame'⟩, textAt,
          if_pos hsame, he hsame]
        rfl

namespace Workspace

/-- The workspace after edits have been folded in one by one. -/
def commitAll (w : Workspace) (edits : List PendingEdit) : Workspace :=
  edits.foldl (fun w e => (w.setContent? e.path e.text).getD w) w

theorem putTexts_textAt (w : Workspace) (path : Path) (text : String) :
    w.putTexts (textAt (w.resolve path) text) = (w.setContent? path text).getD w := by
  rw [putTexts, putFirstIn_textAt (fun _ h => (List.not_mem_nil h).elim), setContent?]
  cases setFirstProject (w.resolve path) text w.projects <;> rfl

theorem putTexts_putTexts (w : Workspace) :
    (w.putTexts f).putTexts g = w.putTexts fun q => (g q).or (f q) := by
  simp only [putTexts, putFirstIn_putFirstIn]

theorem commitAll_eq {edits : List PendingEdit} (habsolute : ∀ e ∈ edits, e.path.isAbsolute)
    (w : Workspace) : w.commitAll edits = w.putTexts (lastText edits) := by
  induction edits generalizing w with
  | nil =>
      change w = { w with projects := putFirstIn (fun _ => none) [] w.projects }
      rw [putFirstIn_none]
  | cons e es ih =>
      rcases List.forall_mem_cons.mp habsolute with ⟨he, hes⟩
      have hrest := ih hes ((w.setContent? e.path e.text).getD w)
      rw [← putTexts_textAt, resolve, if_pos he, putTexts_putTexts] at hrest
      rw [← show _ = w.putTexts (lastText (e :: es)) from hrest, commitAll, List.foldl_cons,
        ← putTexts_textAt, resolve, if_pos he]
      rfl

end Workspace

/-!
# Where the pass gives all documents their texts
-/

theorem putFirst_eq_map_iff {seen : List Path} {ds : List Document} :
    putFirst texts seen ds = ds.map (Document.put texts) ↔
      ∀ before d after, ds = before ++ d :: after → ∀ text, texts d.path = some text →
        d.content = text ∨ ∀ q ∈ seen ++ before.map Document.path, ¬ q.same d.path := by
  induction ds generalizing seen with
  | nil => simp [putFirst]
  | cons x xs ih =>
      have hhead : (if ∃ q ∈ seen, q.same x.path then x else x.put texts) = x.put texts ↔
          ∀ text, texts x.path = some text →
            x.content = text ∨ ∀ q ∈ seen, ¬ q.same x.path := by
        by_cases hseen : ∃ q ∈ seen, q.same x.path
        · rw [if_pos hseen, eq_comm, Document.put_eq_self_iff]
          refine forall_congr' fun text => imp_congr_right fun _ => ?_
          rcases hseen with ⟨q, hq, hsame⟩
          exact ⟨.inl, fun h => h.resolve_right fun hnone => hnone q hq hsame⟩
        · rw [if_neg hseen]
          exact ⟨fun _ _ _ => .inr fun q hq hsame => hseen ⟨q, hq, hsame⟩, fun _ => rfl⟩
      rw [putFirst, List.map_cons, List.cons.injEq, hhead, ih]
      constructor
      · rintro ⟨hx, hxs⟩ before d after hsplit text htext
        rcases List.cons_eq_append_iff.mp hsplit with ⟨rfl, heq⟩ | ⟨before', rfl, heq⟩
        · cases heq
          simpa using hx text htext
        · refine (hxs before' d after heq text htext).imp_right fun hnone q hq => ?_
          apply hnone q
          simp only [List.mem_append, List.map_cons, List.mem_cons] at hq ⊢
          grind
      · intro h
        constructor
        · intro text htext
          simpa using h [] x xs rfl text htext
        · intro before d after hsplit text htext
          refine (h (x :: before) d after (by rw [hsplit]; rfl) text htext).imp_right
            fun hnone q hq => ?_
          apply hnone q
          simp only [List.mem_append, List.map_cons, List.mem_cons] at hq ⊢
          grind

theorem putFirstIn_append (texts : Path → Option String) (seen : List Path)
    (front : List Project) (p : Project) (back : List Project) : ∃ seen' back',
      putFirstIn texts seen (front ++ p :: back) = putFirstIn texts seen front ++
        { p with documents := putFirst texts seen' p.documents } :: back' ∧
      ∀ q, q ∈ seen' ↔ q ∈ seen ∨ ∃ d ∈ front.flatMap Project.documents, d.path = q := by
  induction front generalizing seen with
  | nil => exact ⟨seen, _, rfl, by simp⟩
  | cons first front ih =>
      rcases ih (first.documents.map Document.path ++ seen) with ⟨seen', back', heq, hseen'⟩
      refine ⟨seen', back', ?_, fun q => ?_⟩
      · rw [List.cons_append, putFirstIn, heq]
        rfl
      · rw [hseen']
        simp only [List.mem_append, List.mem_map, List.flatMap_cons]
        constructor
        · rintro ((⟨d, hd, hq⟩ | hq) | ⟨d, hd, hq⟩)
          · exact .inr ⟨d, .inl hd, hq⟩
          · exact .inl hq
          · exact .inr ⟨d, .inr hd, hq⟩
        · rintro (hq | ⟨d, hd | hd, hq⟩)
          · exact .inl (.inr hq)
          · exact .inl (.inl ⟨d, hd, hq⟩)
          · exact .inr ⟨d, hd, hq⟩

theorem map_id_putFirstIn (texts : Path → Option String) (seen : List Path)
    (ps : List Project) :
    (putFirstIn texts seen ps).map Project.id = ps.map Project.id := by
  induction ps generalizing seen with
  | nil => rfl
  | cons p ps ih => rw [putFirstIn, List.map_cons, List.map_cons, ih]

namespace Workspace

/-- Among the projects with the ids, every document at a place with a text is the
first one of the workspace there, or has that text already. -/
def FirstsOnly (w : Workspace) (ids : List ProjectId) (texts : Path → Option String) : Prop :=
  ∀ front p back, w.projects = front ++ p :: back → (∀ q ∈ front, q.id ≠ p.id) → p.id ∈ ids →
    ∀ before d after, p.documents = before ++ d :: after →
      ∀ text, texts d.path = some text → d.content = text ∨
        ∀ other ∈ front.flatMap Project.documents ++ before, ¬ other.path.same d.path

/-- The project with all its texts. -/
def putAll (texts : Path → Option String) (p : Project) : Project :=
  { p with documents := p.documents.map (Document.put texts) }

theorem project?_putTexts_of_split (texts : Path → Option String) {w : Workspace}
    {front back : List Project} {p : Project} (hprojects : w.projects = front ++ p :: back)
    (hfront : ∀ q ∈ front, q.id ≠ p.id) :
    ∃ seen, (w.putTexts texts).project? p.id =
        some { p with documents := putFirst texts seen p.documents } ∧
      ∀ q, q ∈ seen ↔ ∃ d ∈ front.flatMap Project.documents, d.path = q := by
  rcases putFirstIn_append texts [] front p back with ⟨seen, back', heq, hseen⟩
  refine ⟨seen, ?_, by simpa using hseen⟩
  have hnone : (putFirstIn texts [] front).find? (fun q => q.id = p.id) = none := by
    refine List.find?_eq_none.mpr fun q hq hid => ?_
    have hmem : q.id ∈ front.map Project.id := by
      rw [← map_id_putFirstIn texts []]
      exact List.mem_map_of_mem hq
    rcases List.mem_map.mp hmem with ⟨q', hq', hsame⟩
    exact hfront q' hq' (hsame.trans (of_decide_eq_true hid))
  rw [project?, putTexts, hprojects, heq, List.find?_append, hnone]
  simp

theorem split_of_project? {w : Workspace} {id : ProjectId} {p : Project}
    (h : w.project? id = some p) : ∃ front back, w.projects = front ++ p :: back ∧
      (∀ q ∈ front, q.id ≠ p.id) ∧ p.id = id := by
  rcases List.find?_eq_some_iff_append.mp h with ⟨hid, front, back, hprojects, hfront⟩
  have hid : p.id = id := of_decide_eq_true hid
  refine ⟨front, back, hprojects, fun q hq => ?_, hid⟩
  rw [hid]
  simpa using hfront q hq

/-- Texts make a difference to the documents of a project only. -/
theorem exists_project?_putTexts {w : Workspace} {id : ProjectId} {p : Project}
    (h : w.project? id = some p) (texts : Path → Option String) :
    ∃ ds, (w.putTexts texts).project? id = some { p with documents := ds } := by
  rcases split_of_project? h with ⟨front, back, hprojects, hfront, rfl⟩
  rcases project?_putTexts_of_split texts hprojects hfront with ⟨seen, hfound, _⟩
  exact ⟨_, hfound⟩

theorem project?_putTexts {w : Workspace} {front back : List Project} {p : Project}
    (hprojects : w.projects = front ++ p :: back) (hfront : ∀ q ∈ front, q.id ≠ p.id) :
    (w.putTexts texts).project? p.id = some (putAll texts p) ↔
      ∀ before d after, p.documents = before ++ d :: after →
        ∀ text, texts d.path = some text → d.content = text ∨
          ∀ other ∈ front.flatMap Project.documents ++ before, ¬ other.path.same d.path := by
  rcases project?_putTexts_of_split texts hprojects hfront with ⟨seen, hfound, hseen⟩
  rw [hfound, Option.some.injEq, putAll, Project.mk.injEq]
  simp only [true_and, and_true, putFirst_eq_map_iff]
  refine forall_congr' fun before => forall_congr' fun d => forall_congr' fun after =>
    imp_congr_right fun _ => forall_congr' fun text => imp_congr_right fun _ =>
      or_congr_right ?_
  simp only [List.mem_append, List.mem_map, hseen]
  constructor
  · rintro h other (hother | hother)
    · exact h _ (.inl ⟨other, hother, rfl⟩)
    · exact h _ (.inr ⟨other, hother, rfl⟩)
  · rintro h q (⟨other, hother, rfl⟩ | ⟨other, hother, rfl⟩)
    · exact h other (.inl hother)
    · exact h other (.inr hother)

/-- Folding texts in one by one gives the projects all their texts exactly if each
of their documents comes first at its place or has its text already. -/
theorem project?_putTexts_iff (w : Workspace) (ids : List ProjectId) :
    (∀ id ∈ ids, (w.putTexts texts).project? id = (w.project? id).map (putAll texts)) ↔
      w.FirstsOnly ids texts := by
  constructor
  · intro h front p back hprojects hfront hid
    have hp : w.project? p.id = some p := by
      have hnone : front.find? (fun q => q.id = p.id) = none :=
        List.find?_eq_none.mpr fun q hq heq => hfront q hq (of_decide_eq_true heq)
      rw [project?, hprojects, List.find?_append, hnone]
      simp
    have hput := h p.id hid
    rw [hp] at hput
    exact (project?_putTexts hprojects hfront).mp hput
  · intro h id hid
    cases hp : w.project? id with
    | none =>
        have hids := congrArg (List.find? fun other => other = id)
          (map_id_putFirstIn texts [] w.projects)
        rw [List.find?_map, List.find?_map] at hids
        have hnone : (w.putTexts texts).project? id = none := by
          rw [← Option.map_eq_none_iff (f := Project.id)]
          refine Eq.trans hids (Option.map_eq_none_iff.mpr ?_)
          exact hp
        rw [hnone]
        rfl
    | some p =>
        rcases split_of_project? hp with ⟨front, back, hprojects, hfront, rfl⟩
        exact (project?_putTexts hprojects hfront).mpr (h front p back hprojects hfront hid)

end Workspace
end Ripple
