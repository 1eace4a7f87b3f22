import Ripple.Proofs.Session.Reachable

/-!
# Where the document of a path stands

The document that a path stands for is the first one there in the first project
that has any. A new content replaces that one document, and what is looked up
afterwards stands in the same place.
-/

namespace Ripple

/-- The project with a new content for one of its documents. -/
def Project.renewed (p : Project) (d : Document) (before after : List Document)
    (text : String) : Project :=
  { p with documents := before ++ { d with content := text } :: after }

namespace Workspace

/-- The document of the path, and all that comes before and after it. -/
structure Stands (w : Workspace) (path : Path) (p : Project) (d : Document)
    (front back : List Project) (before after : List Document) : Prop where
  projects : w.projects = front ++ p :: back
  documents : p.documents = before ++ d :: after
  same : d.path.same (w.resolve path)
  front_none : ∀ q ∈ front, ∀ other ∈ q.documents, ¬ other.path.same (w.resolve path)
  before_none : ∀ other ∈ before, ¬ other.path.same (w.resolve path)

variable {w : Workspace} {path : Path} {p : Project} {d : Document}
  {front back : List Project} {before after : List Document}

theorem document?_eq_some_iff : w.document? path = some (p, d) ↔
    ∃ front back before after, w.Stands path p d front back before after := by
  simp only [document?, Project.document?, List.findSome?_eq_some_iff, Option.map_eq_some_iff,
    Option.map_eq_none_iff, List.find?_eq_some_iff_append, List.find?_eq_none]
  constructor
  · rintro ⟨front, q, back, hprojects, ⟨_, ⟨hsame, before, after, hdocuments, hbefore⟩, heq⟩,
      hfront⟩
    cases heq
    refine ⟨front, back, before, after, hprojects, hdocuments, hsame, hfront, ?_⟩
    simpa using hbefore
  · rintro ⟨front, back, before, after, h⟩
    refine ⟨front, p, back, h.projects, ⟨d, ⟨h.same, before, after, h.documents, ?_⟩, rfl⟩,
      h.front_none⟩
    simpa using h.before_none

theorem setFirstDocument_of_split {path : Path} {text : String} (hsame : d.path.same path)
    (hbefore : ∀ other ∈ before, ¬ other.path.same path) :
    setFirstDocument path text (before ++ d :: after) =
      some (before ++ { d with content := text } :: after) := by
  induction before with
  | nil => rw [List.nil_append, setFirstDocument, if_pos hsame]; rfl
  | cons first before ih =>
      rcases List.forall_mem_cons.mp hbefore with ⟨hfirst, hrest⟩
      rw [List.cons_append, setFirstDocument, if_neg hfirst, ih hrest]
      rfl

theorem setFirstDocument_eq_none_of_forall {path : Path} {ds : List Document}
    (h : ∀ d ∈ ds, ¬ d.path.same path) (text : String) : setFirstDocument path text ds = none := by
  cases hset : setFirstDocument path text ds with
  | none => rfl
  | some ds' =>
      rcases exists_of_setFirstDocument hset with ⟨d, hd, hsame⟩
      exact absurd hsame (h d hd)

theorem setFirstProject_of_split {path : Path} {text : String}
    (hfront : ∀ q ∈ front, ∀ other ∈ q.documents, ¬ other.path.same path)
    {ds : List Document} (hset : setFirstDocument path text p.documents = some ds) :
    setFirstProject path text (front ++ p :: back) =
      some (front ++ { p with documents := ds } :: back) := by
  induction front with
  | nil => rw [List.nil_append, setFirstProject, hset]; rfl
  | cons first front ih =>
      rcases List.forall_mem_cons.mp hfront with ⟨hfirst, hrest⟩
      rw [List.cons_append, setFirstProject, setFirstDocument_eq_none_of_forall hfirst, ih hrest]
      rfl

/-- The workspace with the new content at this one place. -/
def Stands.renewed (_ : w.Stands path p d front back before after) (text : String) : Workspace :=
  { w with projects := front ++ p.renewed d before after text :: back }

variable (h : w.Stands path p d front back before after) (text : String)
include h

theorem Stands.setContent? : w.setContent? path text = some (h.renewed text) := by
  have hset : setFirstDocument (w.resolve path) text p.documents =
      some (before ++ { d with content := text } :: after) := by
    rw [h.documents]
    exact setFirstDocument_of_split h.same h.before_none
  rw [Workspace.setContent?, h.projects, setFirstProject_of_split h.front_none hset]
  rfl

theorem Stands.mem_documents : d ∈ p.documents := by
  rw [h.documents]
  exact List.mem_append_right _ List.mem_cons_self

omit h in
theorem project?_of_front {q : Project} {id : ProjectId}
    (hprojects : w.projects = front ++ q :: back) (hfront : ∀ other ∈ front, other.id ≠ id) :
    w.project? id = (q :: back).find? fun other => other.id = id := by
  have hnone : front.find? (fun other => other.id = id) = none :=
    List.find?_eq_none.mpr fun other hother heq => hfront other hother (of_decide_eq_true heq)
  rw [project?, hprojects, List.find?_append, hnone]
  rfl

/-- No project before the one that has the document has its id, if it is the first. -/
theorem Stands.front_ne (hfirst : w.project? p.id = some p) : ∀ q ∈ front, q.id ≠ p.id := by
  intro q hq hid
  have hsome : (front.find? fun other => other.id = p.id).isSome :=
    List.find?_isSome.mpr ⟨q, hq, decide_eq_true hid⟩
  rcases Option.isSome_iff_exists.mp hsome with ⟨p', hp'⟩
  have hmem := List.mem_of_find?_eq_some hp'
  rw [project?, h.projects, List.find?_append, hp', Option.some_or] at hfirst
  cases hfirst
  exact h.front_none p hmem d h.mem_documents h.same

theorem Stands.project?_renewed_self (hfirst : w.project? p.id = some p) :
    (h.renewed text).project? p.id = some (p.renewed d before after text) := by
  rw [project?_of_front (w := h.renewed text) rfl (h.front_ne hfirst)]
  simp [Project.renewed]

theorem Stands.project?_renewed_of_ne {id : ProjectId} (hid : id ≠ p.id) :
    (h.renewed text).project? id = w.project? id := by
  have hne : p.id ≠ id := hid.symm
  rw [project?, project?, h.projects]
  simp [renewed, Project.renewed, List.find?_append, hne]

theorem Stands.build_renewed : Graph.build (h.renewed text) = Graph.build w := by
  apply Graph.build_congr
  rw [h.projects]
  simp [renewed, Project.renewed, Project.shape]

end Workspace

/-!
# After several texts
-/

theorem putFirst_append (texts : Path → Option String) (seen : List Path)
    (before after : List Document) : putFirst texts seen (before ++ after) =
      putFirst texts seen before ++
        putFirst texts ((before.map Document.path).reverse ++ seen) after := by
  induction before generalizing seen with
  | nil => rfl
  | cons d before ih => simp [putFirst, ih]

theorem not_same_putFirst {texts : Path → Option String} {seen : List Path} {ds : List Document}
    {path : Path} (h : ∀ d ∈ ds, ¬ d.path.same path) :
    ∀ d ∈ putFirst texts seen ds, ¬ d.path.same path := by
  intro d hd
  have hpaths : (putFirst texts seen ds).map Document.path = ds.map Document.path :=
    map_path_putFirst seen ds
  have hmem : d.path ∈ ds.map Document.path := by
    rw [← hpaths]
    exact List.mem_map_of_mem hd
  rcases List.mem_map.mp hmem with ⟨d', hd', hpath⟩
  rw [← hpath]
  exact h d' hd'

variable {texts : Path → Option String}

theorem putFirst_congr {seen seen' : List Path} (h : ∀ q, q ∈ seen ↔ q ∈ seen')
    (ds : List Document) : putFirst texts seen ds = putFirst texts seen' ds := by
  induction ds generalizing seen seen' with
  | nil => rfl
  | cons d ds ih =>
      have hcons : ∀ q, q ∈ d.path :: seen ↔ q ∈ d.path :: seen' := by simp [h]
      simp only [putFirst, h, ih hcons]

theorem length_putFirst (seen : List Path) (ds : List Document) :
    (putFirst texts seen ds).length = ds.length := by
  have hpaths : (putFirst texts seen ds).map Document.path = ds.map Document.path :=
    map_path_putFirst seen ds
  simpa using congrArg List.length hpaths

theorem flatMap_putFirstIn (seen : List Path) (ps : List Project) :
    (putFirstIn texts seen ps).flatMap Project.documents =
      putFirst texts seen (ps.flatMap Project.documents) := by
  induction ps generalizing seen with
  | nil => rfl
  | cons p ps ih =>
      rw [putFirstIn, List.flatMap_cons, List.flatMap_cons, putFirst_append, ih]
      congr 1
      apply putFirst_congr
      simp

/-- All of a project but the contents of its documents. -/
def Project.layout (p : Project) : Project :=
  { p with documents := p.documents.map fun d => { d with content := "" } }

theorem map_layout_putFirstIn (seen : List Path) (ps : List Project) :
    (putFirstIn texts seen ps).map Project.layout = ps.map Project.layout := by
  induction ps generalizing seen with
  | nil => rfl
  | cons p ps ih =>
      have hblank (ds : List Document) : ds.map (fun d => { d with content := "" }) =
          (ds.map Document.path).map fun path => ⟨path, ""⟩ := by
        rw [List.map_map]
        rfl
      simp only [putFirstIn, List.map_cons, ih, Project.layout, hblank, map_path_putFirst]

namespace Workspace

variable {w : Workspace} {path : Path} {p : Project} {d : Document}
  {front back : List Project} {before after : List Document}

/-- Texts leave a document where it stands, and give it the text of its path. -/
theorem Stands.putTexts (h : w.Stands path p d front back before after)
    (texts : Path → Option String) : ∃ front' back' before' after',
    (w.putTexts texts).Stands path { p with documents := before' ++ d.put texts :: after' }
      (d.put texts) front' back' before' after' := by
  rcases putFirstIn_append texts [] front p back with ⟨seen, back', heq, hseen⟩
  have hunseen : ¬ ∃ q ∈ (before.map Document.path).reverse ++ seen, q.same d.path := by
    rintro ⟨q, hq, hsame⟩
    have hpath : q.same (w.resolve path) :=
      Path.same_iff.mpr ((Path.same_iff.mp hsame).trans (Path.same_iff.mp h.same))
    rcases List.mem_append.mp hq with hq | hq
    · rcases List.mem_map.mp (List.mem_reverse.mp hq) with ⟨other, hother, rfl⟩
      exact h.before_none other hother hpath
    · rcases (hseen q).mp hq with hq | ⟨other, hother, rfl⟩
      · cases hq
      · rcases List.mem_flatMap.mp hother with ⟨first, hfirst, hother⟩
        exact h.front_none first hfirst other hother hpath
  have hdocuments : ∃ after', putFirst texts seen p.documents =
      putFirst texts seen before ++ d.put texts :: after' := by
    rw [h.documents, putFirst_append, putFirst, if_neg hunseen]
    exact ⟨_, rfl⟩
  rcases hdocuments with ⟨after', hdocuments⟩
  refine ⟨putFirstIn texts [] front, back', putFirst texts seen before, after', ?_⟩
  constructor
  · rw [← hdocuments, ← heq, ← h.projects]
    rfl
  · rfl
  · rw [Document.path_put]
    exact h.same
  · intro q hq other hother
    have hpaths : ((putFirstIn texts [] front).flatMap Project.documents).map Document.path =
        (front.flatMap Project.documents).map Document.path := map_path_putFirstIn [] front
    have hmem : other.path ∈ (front.flatMap Project.documents).map Document.path := by
      rw [← hpaths]
      exact List.mem_map_of_mem (List.mem_flatMap.mpr ⟨q, hq, hother⟩)
    rcases List.mem_map.mp hmem with ⟨other', hother', hpath⟩
    rcases List.mem_flatMap.mp hother' with ⟨first, hfirst, hother'⟩
    rw [← hpath]
    exact h.front_none first hfirst other' hother'
  · exact not_same_putFirst h.before_none

theorem document?_putTexts (h : w.document? path = some (p, d)) (texts : Path → Option String) :
    ∃ ds, (w.putTexts texts).document? path = some ({ p with documents := ds }, d.put texts) := by
  rcases document?_eq_some_iff.mp h with ⟨front, back, before, after, h⟩
  rcases h.putTexts texts with ⟨front', back', before', after', h'⟩
  exact ⟨_, document?_eq_some_iff.mpr ⟨front', back', before', after', h'⟩⟩

/-- Spellings of one place stand for one document. -/
theorem document?_congr {path' : Path} (h : (w.resolve path').key = (w.resolve path).key) :
    w.document? path' = w.document? path := by
  unfold document? Project.document?
  simp only [Path.same, h]

/-- A document that is not the first one at its place, or that has no text to be
given, remains as it is. -/
theorem getElem?_documents_putTexts {before after : List Document} {d : Document}
    (hdocuments : w.documents = before ++ d :: after)
    (h : (∃ other ∈ before, other.path.same d.path) ∨ texts d.path = none) :
    (w.putTexts texts).documents[before.length]? = some d := by
  have hall : (w.putTexts texts).documents = putFirst texts [] (before ++ d :: after) := by
    rw [← hdocuments]
    exact flatMap_putFirstIn [] w.projects
  rw [hall, putFirst_append, putFirst, List.getElem?_append_right (Nat.le_of_eq (length_putFirst ..)),
    length_putFirst, Nat.sub_self, List.getElem?_cons_zero]
  split
  · rfl
  · rename_i hfirst
    rcases h with ⟨other, hother, hsame⟩ | hnone
    · refine absurd ⟨other.path, ?_, hsame⟩ hfirst
      exact List.mem_append_left _ (List.mem_reverse.mpr (List.mem_map_of_mem hother))
    · rw [Document.put_eq_self_iff.mpr (by simp [hnone])]

end Workspace
end Ripple
