import Ripple.Proofs.Store.Disk
import Ripple.Proofs.Workspace.Content

/-!
# What several writes leave

Files are apart if writing one of them does not show at another. Texts that are written to
such files one after the other leave the last text of every file, so it makes no difference
which other texts have been written before it, and in which order the files come. This holds
of the store in memory and of that on a disk.
-/

namespace Ripple

/-!
# Last texts
-/

theorem lastText_append (edits edits' : List PendingEdit) (q : Path) :
    lastText (edits ++ edits') q = (lastText edits' q).or (lastText edits q) := by
  induction edits with
  | nil => exact (Option.or_none).symm
  | cons x edits ih => rw [List.cons_append, lastText, lastText, ih, Option.or_assoc]

theorem exists_of_lastText {edits : List PendingEdit} {q : Path} {text : String}
    (h : lastText edits q = some text) : ∃ x ∈ edits, x.path.same q := by
  by_contra hnone
  rw [lastText_eq_none fun x hx hsame => hnone ⟨x, hx, hsame⟩] at h
  cases h

theorem lastText_self {edits : List PendingEdit} {x : PendingEdit} (hx : x ∈ edits) :
    ∃ text, lastText edits x.path = some text := by
  rcases Option.eq_none_or_eq_some (lastText edits x.path) with hnone | hsome
  · obtain ⟨front, back, rfl⟩ := List.append_of_mem hx
    rw [lastText_append, lastText, textAt, if_pos (Path.same_iff.mpr rfl)] at hnone
    cases hback : lastText back x.path <;> simp [hback] at hnone
  · exact hsome

namespace Store

variable {σ : Type}

/-- The files are there, and can be written. -/
structure Serves (st : Store σ) (m : σ) (files : Set Path) : Prop where
  found : ∀ p ∈ files, ∀ e, st.read m p = .error e → e.kind ≠ "NotFound"
  writable : ∀ p ∈ files, ∀ text, (st.write m p text).1 = .ok ()

/-- What is written to a file is not seen at another one. -/
def Apart (st : Store σ) (m : σ) (files : Set Path) : Prop :=
  ∀ p ∈ files, ∀ q ∈ files, ¬ p.same q → ∀ text, st.read (st.write m p text).2 q = st.read m q

theorem Serves.mono {st : Store σ} {m : σ} {files files' : Set Path} (h : st.Serves m files)
    (hsubset : files' ⊆ files) : st.Serves m files' :=
  ⟨fun p hp => h.found p (hsubset hp), fun p hp => h.writable p (hsubset hp)⟩

theorem Apart.mono {st : Store σ} {m : σ} {files files' : Set Path} (h : st.Apart m files)
    (hsubset : files' ⊆ files) : st.Apart m files' :=
  fun p hp q hq => h p (hsubset hp) q (hsubset hq)

/-- The store once texts have been written one after the other. -/
def writeAll (st : Store σ) (m : σ) (edits : List PendingEdit) : σ :=
  edits.foldl (fun m x => (st.write m x.path x.text).2) m

theorem writeAll_append (st : Store σ) (m : σ) (edits edits' : List PendingEdit) :
    st.writeAll m (edits ++ edits') = st.writeAll (st.writeAll m edits) edits' :=
  List.foldl_append

end Store

/-!
# The store in memory
-/

namespace Memory

theorem write_of_ok {m : Memory} {p : Path} {text : String} (h : (m.write p text).1 = .ok ()) :
    m.closed.contains p = false ∧
      m.write p text =
        (.ok (), { m with files := m.files.insert p text, writes := m.writes + 1 }) := by
  unfold write at h ⊢
  split at h
  · cases h
  · rename_i hopen
    exact ⟨eq_false_of_ne_true hopen, by rw [if_neg hopen]⟩

theorem closed_write (m : Memory) (p : Path) (text : String) :
    (m.write p text).2.closed = m.closed := by
  unfold write
  split <;> rfl

/-- In memory any two files are apart. -/
theorem apart (m : Memory) (files : Set Path) : store.Apart m files := by
  intro p _ q _ hdiffers text
  change (m.write p text).2.read q = m.read q
  unfold write
  split
  · rfl
  · simp only [read, PathMap.get?_insert, if_neg hdiffers]

theorem write_fst_congr {m m' : Memory} (h : m'.closed = m.closed) (p : Path) (text : String) :
    (m'.write p text).1 = (m.write p text).1 := by
  simp only [write, h]
  split <;> rfl

theorem read_writeAll {m : Memory} {edits : List PendingEdit}
    (h : ∀ x ∈ edits, ∀ text, (m.write x.path text).1 = .ok ()) (q : Path) :
    (store.writeAll m edits).read q =
      match lastText edits q with
      | some text => .ok text
      | none => m.read q := by
  induction edits generalizing m with
  | nil => rfl
  | cons x edits ih =>
      obtain ⟨hx, hedits⟩ := List.forall_mem_cons.mp h
      obtain ⟨_, hwrite⟩ := write_of_ok (hx x.text)
      have hlater : ∀ y ∈ edits, ∀ text, ((m.write x.path x.text).2.write y.path text).1 = .ok () :=
        fun y hy text =>
          (write_fst_congr (closed_write m x.path x.text) y.path text).trans (hedits y hy text)
      change (store.writeAll (m.write x.path x.text).2 edits).read q = _
      rw [ih hlater, lastText]
      cases lastText edits q with
      | some text => rfl
      | none =>
          simp only [Option.none_or, textAt, hwrite, read, PathMap.get?_insert]
          by_cases hsame : x.path.same q <;> simp [hsame]

end Memory

/-!
# The store on a disk
-/

namespace Disk

variable {d d' : Disk} {path : Path} {through target : Place}

theorem Aligned.symm (h : Aligned d d') : Aligned d' d :=
  ⟨h.here.symm, fun place => (h.isDirectory place).symm⟩

theorem ne_root_of_isDirectory {place : Place} (h : d.isDirectory place = false) : place ≠ [] := by
  rintro rfl
  cases h

/-- Where writes of a path go, and what they go through, whatever is written. -/
structure Lands (d : Disk) (path : Path) (through target : Place) : Prop where
  named : ¬ path.text.toList.contains '\x00'
  neighbour : d.followAll path path.neighbourPieces = .ok through
  fresh : d.isDirectory through = false
  target : d.moveTarget path = .ok target

theorem Writes.lands {bytes : ByteArray} (h : Writes d path bytes through target) :
    Lands d path through target :=
  ⟨h.named, h.neighbour, h.fresh, ((aligned_put h.fresh bytes).symm.moveTarget h.target).left⟩

theorem Lands.writes (h : Lands d path through target) (bytes : ByteArray) :
    Writes d path bytes through target :=
  ⟨h.named, h.neighbour, h.fresh, ((aligned_put h.fresh bytes).moveTarget h.target).left⟩

theorem Aligned.lands (h : Aligned d d') (hlands : Lands d path through target) :
    Lands d' path through target where
  named := hlands.named
  neighbour := h.followAll hlands.neighbour
  fresh := (h.isDirectory through).trans hlands.fresh
  target := (h.moveTarget hlands.target).left

theorem Lands.write_fst (h : Lands d path through target) (text : String) :
    (d.write path text).1 = .ok () :=
  congrArg Prod.fst (h.writes text.toUTF8).write

theorem Lands.aligned (h : Lands d path through target) (text : String) :
    Aligned d (d.write path text).2 := by
  rw [(h.writes text.toUTF8).write]
  exact (h.writes text.toUTF8).aligned

theorem Lands.node?_write (h : Lands d path through target) (text : String) (place : Place) :
    (d.write path text).2.node? place =
      if place = target then some (.file text.toUTF8)
      else if place = through then none
      else d.node? place := by
  have htarget : target ≠ [] :=
    ne_root_of_isDirectory ((Aligned.refl d).moveTarget h.target).right
  have hthrough : through ≠ [] := ne_root_of_isDirectory h.fresh
  rw [(h.writes text.toUTF8).write]
  simp only [move]
  by_cases hplace : place = target
  · rw [if_pos hplace, hplace, node?_put_self _ htarget]
  · rw [if_neg hplace, node?_put_of_ne _ hplace]
    by_cases hplace' : place = through
    · rw [if_pos hplace', hplace', node?_remove_self _ hthrough]
    · rw [if_neg hplace', node?_remove_of_ne _ hplace', node?_put_of_ne _ hplace']

theorem Names.locate {front : List String} {name : String} {above : Place}
    (h : Names d path front name above target) (hnamed : ¬ path.text.toList.contains '\x00') :
    d.locate path = .ok target := by
  unfold Disk.locate
  rw [if_neg h.nonempty, if_neg hnamed, h.pieces]
  exact followAll_concat_eq_ok_iff.mpr ⟨above, h.directory, h.follow⟩

/-- A path leads to where it is written. -/
theorem Lands.locate (h : Lands d path through target) : d.locate path = .ok target := by
  obtain ⟨⟨_, _, _, hnames⟩, _⟩ := exists_names h.target
  exact hnames.locate h.named

theorem read_of_file {text : String} (hlocate : d.locate path = .ok target)
    (hnode : d.node? target = some (.file text.toUTF8)) : d.read path = .ok text := by
  have hbytes : d.readBytes path = .ok text.toUTF8 := by
    unfold readBytes locateNode
    rw [hlocate]
    simp only [bind, Except.bind, hnode]
    rfl
  have htext : String.fromUTF8? text.toUTF8 = some text := by
    simp only [String.fromUTF8?, String.toUTF8_eq_toByteArray, Option.dite_none_right_eq_some,
      Option.some.injEq]
    exact ⟨text.isValidUTF8, rfl⟩
  unfold read
  rw [hbytes]
  simp only [bind, Except.bind, htext]
  rfl

/-- A text is read by every path that leads to where it is written. -/
theorem Lands.read_write {path' : Path} {through' : Place} (h : Lands d path through target)
    (h' : Lands d path' through' target) (text : String) :
    (d.write path text).2.read path' = .ok text := by
  refine read_of_file ((h.aligned text).lands h').locate ?_
  rw [h.node?_write, if_pos rfl]

theorem read_of_none (hlocate : d.locate path = .ok target) (hnode : d.node? target = none) :
    d.read path = .error .noEntry := by
  unfold read readBytes locateNode
  rw [hlocate]
  simp only [bind, Except.bind, hnode]
  rfl

/-- What is read depends on what stands where. -/
theorem read_congr (hhere : d'.here = d.here) (hnodes : ∀ place, d'.node? place = d.node? place)
    (path : Path) : d'.read path = d.read path := by
  have hfollow : d'.follow = d.follow := by
    funext place piece
    simp only [follow, requireDirectory, hnodes]
  have hlocate : d'.locate path = d.locate path := by
    simp only [locate, followAll, start, hhere, hfollow]
  simp only [read, readBytes, locateNode, hlocate, hnodes]

/-!
# Several writes to a disk
-/

/-- Every file has its place, where no other file is put and none goes through. -/
structure Placed (d : Disk) (files : Set Path) (through target : Path → Place) : Prop where
  lands : ∀ p ∈ files, Lands d p (through p) (target p)
  spelled : ∀ p ∈ files, ∀ q ∈ files, p.same q → p = q
  apart : ∀ p ∈ files, ∀ q ∈ files, p ≠ q → target q ≠ target p ∧ target q ≠ through p

section

variable {files : Set Path} {through target : Path → Place}

theorem Placed.write (h : Placed d files through target) (hpath : path ∈ files) (text : String) :
    Placed (d.write path text).2 files through target where
  lands p hp := ((h.lands path hpath).aligned text).lands (h.lands p hp)
  spelled := h.spelled
  apart := h.apart

variable {edits edits' : List PendingEdit}

theorem Placed.here_writeAll (h : Placed d files through target)
    (hedits : ∀ x ∈ edits, x.path ∈ files) : (store.writeAll d edits).here = d.here := by
  induction edits generalizing d with
  | nil => rfl
  | cons x edits ih =>
      obtain ⟨hx, hedits⟩ := List.forall_mem_cons.mp hedits
      exact (ih (h.write hx x.text) hedits).trans ((h.lands _ hx).aligned x.text).here

theorem Placed.node?_writeAll_of_ne (h : Placed d files through target)
    (hedits : ∀ x ∈ edits, x.path ∈ files) {place : Place}
    (hplace : ∀ x ∈ edits, place ≠ target x.path ∧ place ≠ through x.path) :
    (store.writeAll d edits).node? place = d.node? place := by
  induction edits generalizing d with
  | nil => rfl
  | cons x edits ih =>
      obtain ⟨hx, hedits⟩ := List.forall_mem_cons.mp hedits
      obtain ⟨⟨htarget, hthrough⟩, hplace⟩ := List.forall_mem_cons.mp hplace
      refine (ih (h.write hx x.text) hedits hplace).trans ?_
      rw [(h.lands _ hx).node?_write, if_neg htarget, if_neg hthrough]

/-- What texts have gone through is gone in the end. -/
theorem Placed.node?_writeAll_through (h : Placed d files through target)
    (hedits : ∀ x ∈ edits, x.path ∈ files) {place : Place}
    (htarget : ∀ x ∈ edits, place ≠ target x.path)
    (hthrough : ∃ x ∈ edits, place = through x.path) :
    (store.writeAll d edits).node? place = none := by
  induction edits generalizing d with
  | nil =>
      obtain ⟨_, hx, _⟩ := hthrough
      cases hx
  | cons x edits ih =>
      obtain ⟨hx, hedits⟩ := List.forall_mem_cons.mp hedits
      obtain ⟨hfirst, htarget⟩ := List.forall_mem_cons.mp htarget
      by_cases hrest : ∃ y ∈ edits, place = through y.path
      · exact ih (h.write hx x.text) hedits htarget hrest
      · have hplace : place = through x.path := by
          obtain ⟨y, hy, hplace⟩ := hthrough
          rcases List.mem_cons.mp hy with rfl | hy
          · exact hplace
          · exact absurd ⟨y, hy, hplace⟩ hrest
        refine ((h.write hx x.text).node?_writeAll_of_ne hedits fun y hy =>
          ⟨htarget y hy, fun heq => hrest ⟨y, hy, heq⟩⟩).trans ?_
        rw [(h.lands _ hx).node?_write, if_neg hfirst, if_pos hplace]

/-- At its place there is the last text of a file. -/
theorem Placed.node?_writeAll_target (h : Placed d files through target)
    (hedits : ∀ x ∈ edits, x.path ∈ files) (hpath : path ∈ files) {text : String}
    (hlast : lastText edits path = some text) :
    (store.writeAll d edits).node? (target path) = some (.file text.toUTF8) := by
  induction edits generalizing d with
  | nil => cases hlast
  | cons x edits ih =>
      obtain ⟨hx, hedits⟩ := List.forall_mem_cons.mp hedits
      rw [lastText] at hlast
      cases hrest : lastText edits path with
      | some text' =>
          rw [hrest] at hlast
          cases hlast
          exact ih (h.write hx x.text) hedits hrest
      | none =>
          rw [hrest, Option.none_or, textAt] at hlast
          split at hlast
          · rename_i hsame
            cases hlast
            obtain rfl := h.spelled _ hx _ hpath hsame
            have hothers : ∀ y ∈ edits, y.path ≠ x.path := fun y hy heq => by
              obtain ⟨text, htext⟩ := lastText_self hy
              rw [heq, hrest] at htext
              cases htext
            refine ((h.write hx x.text).node?_writeAll_of_ne hedits fun y hy =>
              h.apart _ (hedits y hy) _ hx (hothers y hy)).trans ?_
            rw [(h.lands _ hx).node?_write, if_pos rfl]
          · cases hlast

/-- The same files are written if they have the same last texts. -/
theorem Placed.exists_same (h : Placed d files through target)
    (hedits : ∀ x ∈ edits, x.path ∈ files) (hedits' : ∀ x ∈ edits', x.path ∈ files)
    (hlast : ∀ q, lastText edits q = lastText edits' q) :
    ∀ x ∈ edits, ∃ y ∈ edits', x.path = y.path := by
  intro x hx
  obtain ⟨text, htext⟩ := lastText_self hx
  obtain ⟨y, hy, hsame⟩ := exists_of_lastText ((hlast x.path).symm.trans htext)
  exact ⟨y, hy, (h.spelled _ (hedits' y hy) _ (hedits x hx) hsame).symm⟩

/-- What stands where after writes depends on the last text of every file. -/
theorem Placed.node?_writeAll_congr (h : Placed d files through target)
    (hedits : ∀ x ∈ edits, x.path ∈ files) (hedits' : ∀ x ∈ edits', x.path ∈ files)
    (hlast : ∀ q, lastText edits q = lastText edits' q) (place : Place) :
    (store.writeAll d edits).node? place = (store.writeAll d edits').node? place := by
  have hback := h.exists_same hedits' hedits fun q => (hlast q).symm
  by_cases htarget : ∃ x ∈ edits, place = target x.path
  · obtain ⟨x, hx, rfl⟩ := htarget
    obtain ⟨text, htext⟩ := lastText_self hx
    rw [h.node?_writeAll_target hedits (hedits x hx) htext,
      h.node?_writeAll_target hedits' (hedits x hx) ((hlast _).symm.trans htext)]
  · have htarget : ∀ x ∈ edits, place ≠ target x.path :=
      fun x hx heq => htarget ⟨x, hx, heq⟩
    have htarget' : ∀ y ∈ edits', place ≠ target y.path := fun y hy heq => by
      obtain ⟨x, hx, hsame⟩ := hback y hy
      exact htarget x hx (hsame ▸ heq)
    by_cases hthrough : ∃ x ∈ edits, place = through x.path
    · have hthrough' : ∃ y ∈ edits', place = through y.path := by
        obtain ⟨x, hx, heq⟩ := hthrough
        obtain ⟨y, hy, hsame⟩ := h.exists_same hedits hedits' hlast x hx
        exact ⟨y, hy, hsame ▸ heq⟩
      rw [h.node?_writeAll_through hedits htarget hthrough,
        h.node?_writeAll_through hedits' htarget' hthrough']
    · have hthrough' : ∀ y ∈ edits', place ≠ through y.path := fun y hy heq => by
        obtain ⟨x, hx, hsame⟩ := hback y hy
        exact hthrough ⟨x, hx, hsame ▸ heq⟩
      rw [h.node?_writeAll_of_ne hedits fun x hx =>
          ⟨htarget x hx, fun heq => hthrough ⟨x, hx, heq⟩⟩,
        h.node?_writeAll_of_ne hedits' fun y hy => ⟨htarget' y hy, hthrough' y hy⟩]

/-- Files that are there and apart have their own places. -/
theorem exists_placed (hserves : store.Serves d files) (hapart : store.Apart d files)
    (hspelled : ∀ p ∈ files, ∀ q ∈ files, p.same q → p = q) :
    ∃ through target, Placed d files through target := by
  have hwrites : ∀ p, ∃ places : Place × Place, p ∈ files → Lands d p places.1 places.2 := by
    intro p
    by_cases hp : p ∈ files
    · obtain ⟨through, target, hwrites⟩ := exists_writes (hserves.writable p hp "")
      exact ⟨⟨through, target⟩, fun _ => hwrites.lands⟩
    · exact ⟨⟨[], []⟩, fun hmem => absurd hmem hp⟩
  choose places hlands using hwrites
  refine ⟨fun p => (places p).1, fun p => (places p).2, hlands, hspelled, ?_⟩
  intro p hp q hq hne
  have hdiffers : ¬ p.same q := fun hsame => hne (hspelled p hp q hq hsame)
  have hread : ∀ text, (d.write p text).2.read q = d.read q := hapart p hp q hq hdiffers
  have hlocate (text : String) : (d.write p text).2.locate q = .ok (places q).2 :=
    (((hlands p hp).aligned text).lands (hlands q hq)).locate
  have htarget : (places q).2 ≠ (places p).2 := by
    intro heq
    have hnode (text : String) :
        (d.write p text).2.node? (places q).2 = some (.file text.toUTF8) := by
      rw [(hlands p hp).node?_write, if_pos heq]
    have hempty := (hread "").symm.trans (read_of_file (hlocate "") (hnode ""))
    have hfull := (hread "x").symm.trans (read_of_file (hlocate "x") (hnode "x"))
    exact absurd (hempty.symm.trans hfull) (by decide)
  refine ⟨htarget, fun heq => ?_⟩
  have hnode : (d.write p "").2.node? (places q).2 = none := by
    rw [(hlands p hp).node?_write, if_neg htarget, if_pos heq]
  have hgone := (hread "").symm.trans (read_of_none (hlocate "") hnode)
  exact hserves.found q hq _ hgone rfl

end

end Disk

/-!
# The stores that there are
-/

namespace Store

/-- The stores that an engine is run with. -/
inductive Provided : {σ : Type} → Store σ → Prop where
  | memory : Provided Memory.store
  | disk : Provided Disk.store

variable {σ : Type} {st : Store σ} {m : σ} {files : Set Path}

/-- Files can be written after each other. -/
theorem Provided.writable_write (h : st.Provided)
    (hwritable : ∀ p ∈ files, ∀ text, (st.write m p text).1 = .ok ()) {p : Path} (hp : p ∈ files)
    (text : String) :
    ∀ q ∈ files, ∀ text', (st.write (st.write m p text).2 q text').1 = .ok () := by
  intro q hq text'
  cases h with
  | memory =>
      exact (Memory.write_fst_congr (Memory.closed_write m p text) q text').trans
        (hwritable q hq text')
  | disk => exact Disk.write_ok_of_write_ok (hwritable p hp text) (hwritable q hq text')

theorem Provided.writable_writeAll (h : st.Provided) {edits : List PendingEdit}
    (hedits : ∀ x ∈ edits, x.path ∈ files)
    (hwritable : ∀ p ∈ files, ∀ text, (st.write m p text).1 = .ok ()) :
    ∀ q ∈ files, ∀ text, (st.write (st.writeAll m edits) q text).1 = .ok () := by
  induction edits generalizing m with
  | nil => exact hwritable
  | cons x edits ih =>
      obtain ⟨hx, hedits⟩ := List.forall_mem_cons.mp hedits
      exact ih hedits (h.writable_write hwritable hx x.text)

/-- What is read after writes depends on the last text of every file. -/
theorem Provided.read_writeAll_congr (h : st.Provided) (hserves : st.Serves m files)
    (hapart : st.Apart m files) (hspelled : ∀ p ∈ files, ∀ q ∈ files, p.same q → p = q)
    {edits edits' : List PendingEdit} (hedits : ∀ x ∈ edits, x.path ∈ files)
    (hedits' : ∀ x ∈ edits', x.path ∈ files)
    (hlast : ∀ q, lastText edits q = lastText edits' q) (path : Path) :
    st.read (st.writeAll m edits) path = st.read (st.writeAll m edits') path := by
  cases h with
  | memory =>
      have hread {edits : List PendingEdit} (hedits : ∀ x ∈ edits, x.path ∈ files) :=
        Memory.read_writeAll (m := m) (fun x hx => hserves.writable x.path (hedits x hx)) path
      exact (hread hedits).trans ((hlast path) ▸ (hread hedits').symm)
  | disk =>
      obtain ⟨through, target, hplaced⟩ := Disk.exists_placed hserves hapart hspelled
      exact Disk.read_congr
        ((hplaced.here_writeAll hedits).trans (hplaced.here_writeAll hedits').symm)
        (hplaced.node?_writeAll_congr hedits hedits' hlast) path

end Store
end Ripple
