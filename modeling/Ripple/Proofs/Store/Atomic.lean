import Mathlib.Data.Set.Insert
import Ripple.Proofs.Store.Files

/-!
# Writes are all or nothing

A write either leaves its text where the path leads or fails, and all other places are as
before, but for the one that the text goes through. What is written there is moved or taken
away again, so that nothing stands there in the end: a file of that name is lost, whatever
the write comes to. Such names are kept for writes, and where no file has one a write is all
or nothing.
-/

namespace Ripple

/-!
# Names of neighbours
-/

namespace Path

variable {path : Path} {front : List String} {name : String}

theorem component?_of_isName {piece : List Char} (h : Disk.IsName (String.ofList piece)) :
    component? piece = some (.name (String.ofList piece)) := by
  have hempty : ¬ (piece = [] ∨ piece = ['.']) := by
    rintro (rfl | rfl)
    · exact h.left rfl
    · exact h.right.left rfl
  have hup : piece ≠ ['.', '.'] := by
    rintro rfl
    exact h.right.right rfl
  rw [component?, if_neg hempty, if_neg hup]

/-- The name at the end of a path is its last component. -/
theorem getLast?_key (hpieces : path.pieces = front ++ [name]) (hname : Disk.IsName name) :
    path.key.getLast? = some (.name name) := by
  rcases List.map_eq_append_iff.mp hpieces with ⟨before, last, hsplit, _, hlast⟩
  rcases List.map_eq_singleton_iff.mp hlast with ⟨piece, rfl, rfl⟩
  have hkept (pieces : List (List Char)) : (pieces ++ [piece]).filterMap component? =
      pieces.filterMap component? ++ [.name (String.ofList piece)] := by
    rw [List.filterMap_append]
    simp only [List.filterMap_cons, component?_of_isName hname, List.filterMap_nil]
  unfold key
  split
  · rw [hsplit, hkept, ← List.cons_append, List.getLast?_concat]
  · rename_i pieces heq
    cases before with
    | nil =>
        cases hsplit.symm.trans heq
        exact absurd rfl hname.right.left
    | cons first before =>
        have hrest : pieces = before ++ [piece] :=
          (List.cons.inj (heq.symm.trans hsplit)).right
        rw [hrest, hkept, ← List.cons_append, List.getLast?_concat]
  · rw [hsplit, hkept, List.getLast?_concat]

theorem fileName?_of_pieces (hpieces : path.pieces = front ++ [name])
    (hname : Disk.IsName name) : path.fileName? = some name := by
  rw [fileName?, getLast?_key hpieces hname]

theorem neighbourPieces_of_pieces (hpieces : path.pieces = front ++ [name])
    (hname : Disk.IsName name) :
    path.neighbourPieces = front ++ [name ++ temporaryEnding] := by
  have hidle : ¬ isIdlePiece name := by
    simp [isIdlePiece, hname.left, hname.right.left]
  have hactive : path.activePieces = front ++ [name] := by
    rw [activePieces, hpieces]
    exact List.rdropWhile_concat_neg _ _ _ hidle
  rw [neighbourPieces, fileName?_of_pieces hpieces hname]
  simp only [hactive, List.dropLast_concat]

/-- A neighbour is named by its ending, also where it has no other name. -/
theorem exists_neighbourPieces (path : Path) :
    ∃ front name, path.neighbourPieces = front ++ [name ++ temporaryEnding] := by
  unfold neighbourPieces
  split
  · rename_i name _
    exact ⟨_, name, rfl⟩
  · exact ⟨_, "", by rw [String.empty_append]⟩

end Path

namespace Disk

variable {d : Disk} {path : Path} {text : String} {through target place place' : Place}

theorem length_append_temporaryEnding (name : String) :
    (name ++ temporaryEnding).length = name.length + 10 := by
  rw [String.length_append]
  rfl

theorem isName_append_temporaryEnding (name : String) : IsName (name ++ temporaryEnding) := by
  have hlong (s : String) (hs : s.length < 10) : name ++ temporaryEnding ≠ s := by
    intro heq
    have hlength := length_append_temporaryEnding name
    rw [heq] at hlength
    omega
  exact ⟨hlong "" (by decide), hlong "." (by decide), hlong ".." (by decide)⟩

theorem Lands.mem_passage (h : Lands d path through target) : through ∈ d.passage path :=
  ⟨h.named, h.neighbour, h.fresh⟩

theorem eq_of_mem_passage (h : place ∈ d.passage path) (h' : place' ∈ d.passage path) :
    place = place' :=
  Except.ok.inj (h.right.left.symm.trans h'.right.left)

/-- What a text goes through is named by its ending. -/
theorem exists_of_mem_passage (h : place ∈ d.passage path) :
    ∃ above name, place = above ++ [name ++ temporaryEnding] := by
  rcases path.exists_neighbourPieces with ⟨front, name, hpieces⟩
  have hneighbour := h.right.left
  rw [hpieces] at hneighbour
  rcases followAll_concat_eq_ok_iff.mp hneighbour with ⟨above, _, hfollow⟩
  exact ⟨above, name, eq_append_of_follow (isName_append_temporaryEnding name) hfollow⟩

/-- The text of a file goes through a place beside it. -/
theorem Lands.beside (h : Lands d path through target) :
    ∃ above name, target = above ++ [name] ∧ through = above ++ [name ++ temporaryEnding] := by
  rcases exists_names h.target with ⟨⟨front, name, above, hnames⟩, _⟩
  have hneighbour := h.neighbour
  rw [Path.neighbourPieces_of_pieces hnames.pieces hnames.isName] at hneighbour
  rcases followAll_concat_eq_ok_iff.mp hneighbour with ⟨above', habove, hfollow⟩
  cases habove.symm.trans hnames.directory
  exact ⟨above, name, hnames.eq_append,
    eq_append_of_follow (isName_append_temporaryEnding name) hfollow⟩

theorem Lands.through_ne (h : Lands d path through target) : through ≠ target := by
  rcases h.beside with ⟨above, name, rfl, rfl⟩
  intro heq
  have hname : name ++ temporaryEnding = name := by
    simpa using heq
  have hlength := length_append_temporaryEnding name
  rw [hname] at hlength
  omega

/-!
# What a write comes to
-/

/-- All places are as before, apart from given ones. -/
structure Kept (out : Set Place) (d d' : Disk) : Prop where
  here : d'.here = d.here
  node? : ∀ place ∉ out, d'.node? place = d.node? place

/-- The text stands where the path leads, or the write has failed; either way all other
places are as before, apart from given ones. -/
def AllOrNothing (d : Disk) (path : Path) (text : String) (out : Set Place) : Prop :=
  match d.write path text with
  | (.ok (), d') => ∃ target, d.locate path = .ok target ∧
      d'.node? target = some (.file text.toUTF8) ∧ d'.read path = .ok text ∧
      Kept (insert target out) d d'
  | (.error _, d') => Kept out d d'

/-- What has been put somewhere and taken away again leaves nothing there. -/
theorem node?_remove_put (hplace : through ≠ []) (node : Node) (place : Place) :
    ((d.put through node).remove through).node? place =
      if place = through then none else d.node? place := by
  by_cases heq : place = through
  · rw [if_pos heq, heq, node?_remove_self _ hplace]
  · rw [if_neg heq, node?_remove_of_ne _ heq, node?_put_of_ne _ heq]

/-- A write has no place to go through, or takes the text away again, or lands. -/
theorem write_cases (d : Disk) (path : Path) (text : String) :
    (d.passage path = ∅ ∧ ∃ e, d.write path text = (.error e, d)) ∨
    (∃ through ∈ d.passage path, ∃ e, d.write path text =
      (.error e, (d.put through (.file text.toUTF8)).remove through)) ∨
    ∃ through target, Lands d path through target := by
  rcases Set.eq_empty_or_nonempty (d.passage path) with hempty | ⟨through, hthrough⟩
  · exact .inl ⟨hempty, write_of_passage_eq_empty hempty text⟩
  · have hwrite := write_of_mem_passage hthrough text
    cases htarget : (d.put through (.file text.toUTF8)).moveTarget path with
    | error e =>
        rw [htarget] at hwrite
        exact .inr (.inl ⟨through, hthrough, e, hwrite⟩)
    | ok target =>
        have hwrites : Writes d path text.toUTF8 through target :=
          ⟨hthrough.left, hthrough.right.left, hthrough.right.right, htarget⟩
        exact .inr (.inr ⟨through, target, hwrites.lands⟩)

/-- Whatever a write comes to, nothing stands where the text has gone through. -/
theorem node?_write_passage (h : place ∈ d.passage path) (text : String) :
    (d.write path text).2.node? place = none := by
  rcases write_cases d path text with ⟨hempty, _⟩ | ⟨through, hthrough, e, hwrite⟩ |
    ⟨through, target, hlands⟩
  · rw [hempty] at h
    cases h
  · rw [hwrite, eq_of_mem_passage h hthrough,
      node?_remove_put (ne_root_of_isDirectory hthrough.right.right), if_pos rfl]
  · rw [eq_of_mem_passage h hlands.mem_passage, hlands.node?_write, if_neg hlands.through_ne,
      if_pos rfl]

/-- Apart from where the text goes through a write is all or nothing. -/
theorem allOrNothing_passage (d : Disk) (path : Path) (text : String) :
    AllOrNothing d path text (d.passage path) := by
  unfold AllOrNothing
  rcases write_cases d path text with ⟨_, e, hwrite⟩ | ⟨through, hthrough, e, hwrite⟩ |
    ⟨through, target, hlands⟩
  · rw [hwrite]
    exact ⟨rfl, fun _ _ => rfl⟩
  · rw [hwrite]
    refine ⟨rfl, fun place hplace => ?_⟩
    have hne : place ≠ through := fun heq => hplace (heq ▸ hthrough)
    rw [node?_remove_put (ne_root_of_isDirectory hthrough.right.right), if_neg hne]
  · have hnode := hlands.node?_write text
    have hread := hlands.read_write hlands text
    have hhere := (hlands.aligned text).here
    rw [(hlands.writes text.toUTF8).write] at hnode hread hhere ⊢
    refine ⟨target, hlands.locate, by rw [hnode, if_pos rfl], hread, hhere, fun place hplace => ?_⟩
    rw [Set.mem_insert_iff, not_or] at hplace
    have hne : place ≠ through := fun heq => hplace.right (heq ▸ hlands.mem_passage)
    rw [hnode, if_neg hplace.left, if_neg hne]

/-- Places that are as before need not be left out. -/
theorem AllOrNothing.of_same {out : Set Place} (h : AllOrNothing d path text out)
    (hsame : ∀ place ∈ out, (d.write path text).2.node? place = d.node? place) :
    AllOrNothing d path text ∅ := by
  unfold AllOrNothing at h ⊢
  split at h
  · rename_i d' hwrite
    rw [hwrite] at hsame
    rcases h with ⟨target, hlocate, htarget, hread, hkept⟩
    refine ⟨target, hlocate, htarget, hread, hkept.here, fun place hplace => ?_⟩
    by_cases hout : place ∈ out
    · exact hsame place hout
    · exact hkept.node? place (by simpa [hout] using hplace)
  · rename_i e d' hwrite
    rw [hwrite] at hsame
    refine ⟨h.here, fun place _ => ?_⟩
    by_cases hout : place ∈ out
    · exact hsame place hout
    · exact h.node? place hout

theorem AllOrNothing.node? {out : Set Place} (h : AllOrNothing d path text out)
    (hplace : place ∉ out) (hnone : (d.write path text).2.node? place = none) :
    d.node? place = none := by
  unfold AllOrNothing at h
  split at h
  · rename_i d' hwrite
    rcases h with ⟨target, _, htarget, _, hkept⟩
    rw [hwrite] at hnone
    have hne : place ≠ target := by
      rintro rfl
      cases hnone.symm.trans htarget
    rw [← hkept.node? place (by simp [hne, hplace]), hnone]
  · rename_i e d' hwrite
    rw [hwrite] at hnone
    rw [← h.node? place hplace, hnone]

/-- A write is all or nothing where nothing stands in its way, and only there. -/
theorem allOrNothing_iff (d : Disk) (path : Path) (text : String) :
    AllOrNothing d path text ∅ ↔ ∀ place ∈ d.passage path, d.node? place = none := by
  constructor
  · intro h place hplace
    exact h.node? (Set.notMem_empty place) (node?_write_passage hplace text)
  · intro hnone
    have hsame : ∀ place ∈ d.passage path, (d.write path text).2.node? place = d.node? place :=
      fun place hplace => (node?_write_passage hplace text).trans (hnone place hplace).symm
    exact (allOrNothing_passage d path text).of_same hsame

/-- What a text goes through has the name of its file with the ending, where it comes to
its file. -/
theorem beside_of_mem_passage (hplace : place ∈ d.passage path) (text : String) :
    ∃ above name, place = above ++ [name ++ temporaryEnding] ∧
      ((d.write path text).1 = .ok () → d.locate path = .ok (above ++ [name])) := by
  by_cases hok : (d.write path text).1 = .ok ()
  · rcases exists_writes hok with ⟨through, target, hwrites⟩
    rcases hwrites.lands.beside with ⟨above, name, rfl, hthrough⟩
    have heq := eq_of_mem_passage hplace hwrites.lands.mem_passage
    exact ⟨above, name, heq.trans hthrough, fun _ => hwrites.lands.locate⟩
  · rcases exists_of_mem_passage hplace with ⟨above, name, heq⟩
    exact ⟨above, name, heq, fun h => absurd h hok⟩

/-- A write leaves its text where the path leads or fails, and all other places are as before,
but for the neighbour that the text goes through, where nothing stands in the end. So it is
all or nothing just where no file has the neighbour's name. -/
theorem written_or_as_before (d : Disk) (path : Path) (text : String) :
    AllOrNothing d path text (d.passage path) ∧
    (∀ place ∈ d.passage path, (d.write path text).2.node? place = none ∧
      ∃ above name, place = above ++ [name ++ temporaryEnding] ∧
        ((d.write path text).1 = .ok () → d.locate path = .ok (above ++ [name]))) ∧
    (AllOrNothing d path text ∅ ↔ ∀ place ∈ d.passage path, d.node? place = none) := by
  refine ⟨allOrNothing_passage d path text, ?_, allOrNothing_iff d path text⟩
  intro place hplace
  exact ⟨node?_write_passage hplace text, beside_of_mem_passage hplace text⟩

/-- Two files that have the names of neighbours, of a file and of a directory. -/
def littered : Disk :=
  (((Disk.empty.put ["a.arb"] (.file "def alpha\n".toUTF8)).put ["a.arb.arbor-tmp"]
    (.file "notes\n".toUTF8)).put ["sub"] .directory).put ["sub.arbor-tmp"]
    (.file "more\n".toUTF8)

/-- A file with the name of a neighbour is lost, both when the text is written and when the
write fails. -/
theorem neighbours_lost :
    littered.read ⟨"/a.arb.arbor-tmp"⟩ = .ok "notes\n" ∧
    (littered.write ⟨"/a.arb"⟩ "def beta\n").1 = .ok () ∧
    (littered.write ⟨"/a.arb"⟩ "def beta\n").2.read ⟨"/a.arb.arbor-tmp"⟩ = .error .noEntry ∧
    ¬ AllOrNothing littered ⟨"/a.arb"⟩ "def beta\n" ∅ ∧
    littered.read ⟨"/sub.arbor-tmp"⟩ = .ok "more\n" ∧
    (littered.write ⟨"/sub"⟩ "def beta\n").1 = .error .isADirectory ∧
    (littered.write ⟨"/sub"⟩ "def beta\n").2.read ⟨"/sub.arbor-tmp"⟩ = .error .noEntry ∧
    ¬ AllOrNothing littered ⟨"/sub"⟩ "def beta\n" ∅ := by
  have hfile : ["a.arb.arbor-tmp"] ∈ littered.passage ⟨"/a.arb"⟩ :=
    ⟨by decide, by decide, by decide⟩
  have hdirectory : ["sub.arbor-tmp"] ∈ littered.passage ⟨"/sub"⟩ :=
    ⟨by decide, by decide, by decide⟩
  refine ⟨by decide, by decide, by decide, ?_, by decide,
    by decide, by decide, ?_⟩
  · intro h
    cases (allOrNothing_iff _ _ _).mp h _ hfile
  · intro h
    cases (allOrNothing_iff _ _ _).mp h _ hdirectory

end Disk
end Ripple
