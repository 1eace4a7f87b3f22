import Mathlib.Data.List.DropRight
import Mathlib.Data.Set.Basic
import Ripple.Manifest.Load
import Ripple.Proofs.Store.Discreet

/-!
# The store on a disk

It depends on the directories of a disk alone whether a file can be written, and no file
becomes a directory or the other way round when one is written. So files that can be
written can be written independently of each other.
-/

namespace Ripple

theorem bind_eq_ok_iff {ε α β : Type} {x : Except ε α} {f : α → Except ε β} {b : β} :
    (x >>= f) = .ok b ↔ ∃ a, x = .ok a ∧ f a = .ok b := by
  cases x with
  | error e => exact ⟨nofun, by rintro ⟨_, ⟨⟩, _⟩⟩
  | ok a => exact ⟨fun h => ⟨a, rfl, h⟩, by rintro ⟨_, ⟨⟩, h⟩; exact h⟩

namespace Disk

variable {d d' : Disk} {place place' : Place} {piece : String} {pieces : List String}
  {path : Path} {text : String} {bytes : ByteArray}

/-!
# Directories
-/

/-- The same places are directories. -/
structure Aligned (d d' : Disk) : Prop where
  here : d'.here = d.here
  isDirectory : ∀ place, d'.isDirectory place = d.isDirectory place

theorem Aligned.refl (d : Disk) : Aligned d d := ⟨rfl, fun _ => rfl⟩

theorem Aligned.trans {d'' : Disk} (h : Aligned d d') (h' : Aligned d' d'') : Aligned d d'' where
  here := h'.here.trans h.here
  isDirectory place := (h'.isDirectory place).trans (h.isDirectory place)

theorem requireDirectory_eq_ok_iff : d.requireDirectory place = .ok () ↔ d.isDirectory place := by
  unfold requireDirectory isDirectory
  cases d.node? place with
  | none => simp
  | some node => cases node <;> simp

theorem isDirectory_put_file (d : Disk) (place other : Place) (bytes : ByteArray) :
    (d.put place (.file bytes)).isDirectory other =
      (d.isDirectory other && (other = [] || other ≠ place)) := by
  by_cases hother : other = place
  · subst hother
    by_cases hroot : other = []
    · subst hroot
      rfl
    · simp only [isDirectory, node?_put_self d hroot, hroot]
      simp
  · simp only [isDirectory, node?_put_of_ne d hother]
    simp [hother]

theorem isDirectory_remove (d : Disk) (place other : Place) :
    (d.remove place).isDirectory other =
      (d.isDirectory other && (other = [] || other ≠ place)) := by
  by_cases hother : other = place
  · subst hother
    by_cases hroot : other = []
    · subst hroot
      rfl
    · simp only [isDirectory, node?_remove_self d hroot, hroot]
      simp
  · simp only [isDirectory, node?_remove_of_ne d hother]
    simp [hother]

theorem Aligned.put (h : Aligned d d') (place : Place) (bytes : ByteArray) :
    Aligned (d.put place (.file bytes)) (d'.put place (.file bytes)) where
  here := h.here
  isDirectory other := by rw [isDirectory_put_file, isDirectory_put_file, h.isDirectory]

/-- A file may take the place of anything but a directory. -/
theorem aligned_put (h : d.isDirectory place = false) (bytes : ByteArray) :
    Aligned d (d.put place (.file bytes)) where
  here := rfl
  isDirectory other := by
    rw [isDirectory_put_file]
    by_cases hother : other = place
    · rw [hother, h, Bool.false_and]
    · simp [hother]

theorem aligned_remove (h : d.isDirectory place = false) : Aligned d (d.remove place) where
  here := rfl
  isDirectory other := by
    rw [isDirectory_remove]
    by_cases hother : other = place
    · rw [hother, h, Bool.false_and]
    · simp [hother]

/-!
# Ways along directories
-/

theorem Aligned.requireDirectory (h : Aligned d d') (hok : d.requireDirectory place = .ok ()) :
    d'.requireDirectory place = .ok () :=
  requireDirectory_eq_ok_iff.mpr ((h.isDirectory place).trans (requireDirectory_eq_ok_iff.mp hok))

theorem Aligned.follow (h : Aligned d d') (hok : d.follow place piece = .ok place') :
    d'.follow place piece = .ok place' := by
  unfold Disk.follow at hok ⊢
  cases hrequire : d.requireDirectory place with
  | error e =>
      rw [hrequire] at hok
      cases hok
  | ok u =>
      rw [hrequire] at hok
      rw [h.requireDirectory hrequire]
      exact hok

theorem Aligned.foldlM_follow (h : Aligned d d') (hok : pieces.foldlM d.follow place = .ok place') :
    pieces.foldlM d'.follow place = .ok place' := by
  induction pieces generalizing place with
  | nil => exact hok
  | cons piece pieces ih =>
      rw [List.foldlM_cons] at hok ⊢
      cases hfollow : d.follow place piece with
      | error e =>
          rw [hfollow] at hok
          cases hok
      | ok next =>
          rw [hfollow] at hok
          rw [h.follow hfollow]
          exact ih hok

theorem Aligned.followAll (h : Aligned d d') (hok : d.followAll path pieces = .ok place) :
    d'.followAll path pieces = .ok place := by
  have hstart : d'.start path = d.start path := by rw [start, start, h.here]
  unfold Disk.followAll at hok ⊢
  rw [hstart]
  exact h.foldlM_follow hok

theorem foldlM_follow_singleton_iff :
    [piece].foldlM d.follow place = .ok place' ↔ d.follow place piece = .ok place' := by
  rw [List.foldlM_cons, bind_eq_ok_iff]
  constructor
  · intro h
    rcases h with ⟨_, hfollow, hpure⟩
    cases hpure
    exact hfollow
  · intro hfollow
    exact ⟨place', hfollow, rfl⟩

theorem followAll_concat_eq_ok_iff :
    d.followAll path (pieces ++ [piece]) = .ok place ↔
      ∃ above, d.followAll path pieces = .ok above ∧ d.follow above piece = .ok place := by
  rw [followAll, List.foldlM_append, bind_eq_ok_iff]
  constructor
  · intro h
    rcases h with ⟨above, habove, hlast⟩
    exact ⟨above, habove, foldlM_follow_singleton_iff.mp hlast⟩
  · intro h
    rcases h with ⟨above, habove, hfollow⟩
    exact ⟨above, habove, foldlM_follow_singleton_iff.mpr hfollow⟩

/-- A piece that names something else than where it starts and what is above that. -/
def IsName (piece : String) : Prop :=
  piece ≠ "" ∧ piece ≠ "." ∧ piece ≠ ".."

theorem eq_append_of_follow (hname : IsName piece) (h : d.follow place piece = .ok place') :
    place' = place ++ [piece] := by
  unfold Disk.follow at h
  obtain ⟨_, _, h⟩ := bind_eq_ok_iff.mp h
  simp only [hname.left, hname.right.left, hname.right.right, decide_false, Bool.or_false,
    Bool.false_eq_true, if_false] at h
  split at h
  · cases h
  · exact (Except.ok.inj h).symm

/-- The path leads out of a directory by the name at its end. -/
structure Names (d : Disk) (path : Path) (front : List String) (name : String)
    (above place : Place) : Prop where
  pieces : path.pieces = front ++ [name]
  isName : IsName name
  directory : d.followAll path front = .ok above
  follow : d.follow above name = .ok place

variable {front : List String} {name : String} {above : Place}

theorem Names.eq_append (h : Names d path front name above place) : place = above ++ [name] :=
  eq_append_of_follow h.isName h.follow

theorem Names.nonempty (h : Names d path front name above place) : ¬ path.text.isEmpty := by
  intro htext
  have hpieces : path.pieces = [] ++ [""] := by
    rw [Path.pieces, String.isEmpty_iff.mp htext]
    rfl
  have hname := (List.append_inj' (h.pieces.symm.trans hpieces) rfl).right
  exact h.isName.left (List.singleton_inj.mp hname)

/-- Where no directory is a file can be moved to. -/
theorem Names.moveTarget (h : Names d path front name above place)
    (hfile : d.isDirectory place = false) : d.moveTarget path = .ok place := by
  have hkept : ((front ++ [name]).reverse.dropWhile fun piece => piece = "").reverse =
      front ++ [name] :=
    List.rdropWhile_concat_neg _ _ _ (by simpa using h.isName.left)
  have hdots : ¬ (name = "." || name = "..") := by
    simpa using h.isName.right
  unfold Disk.moveTarget
  rw [if_neg h.nonempty, h.pieces]
  simp only [hkept, List.dropLast_concat, List.getLast?_concat, if_neg hdots, lt_irrefl, if_false]
  refine bind_eq_ok_iff.mpr ⟨above, h.directory, ?_⟩
  obtain ⟨u, hrequire, _⟩ := bind_eq_ok_iff.mp h.follow
  refine bind_eq_ok_iff.mpr ⟨u, hrequire, ?_⟩
  refine bind_eq_ok_iff.mpr ⟨place, h.follow, ?_⟩
  rw [hfile]
  rfl

/-- A file can be moved to what a path names only. -/
theorem exists_names (h : d.moveTarget path = .ok place) :
    (∃ front name above, Names d path front name above place) ∧ d.isDirectory place = false := by
  unfold Disk.moveTarget at h
  split at h
  · cases h
  · obtain ⟨above, habove, h⟩ := bind_eq_ok_iff.mp h
    obtain ⟨_, _, h⟩ := bind_eq_ok_iff.mp h
    split at h
    · cases h
    · rename_i last hlast
      split at h
      · cases h
      · rename_i hdots
        split at h
        · cases h
        · rename_i hlength
          obtain ⟨target, hfollow, h⟩ := bind_eq_ok_iff.mp h
          split at h
          · cases h
          · rename_i hfile
            cases h
            -- without slashes at the end no piece is dropped
            have hkept : (path.pieces.reverse.dropWhile fun piece => piece = "").reverse =
                path.pieces :=
              (List.rdropWhile_prefix _ path.pieces).eq_of_length_le (Nat.not_lt.mp hlength)
            rw [hkept] at habove hlast
            have hpieces := (List.dropLast_append_getLast? last hlast).symm
            have hlast : last ≠ "" := by
              have hlast := List.rdropWhile_eq_self_iff.mp hkept
              rw [hpieces] at hlast
              simpa using hlast
            have hname : IsName last := ⟨hlast, by simpa using hdots⟩
            exact ⟨⟨_, last, above, hpieces, hname, habove, hfollow⟩, eq_false_of_ne_true hfile⟩

theorem Aligned.names (h : Aligned d d') (hnames : Names d path front name above place) :
    Names d' path front name above place :=
  ⟨hnames.pieces, hnames.isName, h.followAll hnames.directory, h.follow hnames.follow⟩

/-- A file can be moved to the same place, where no directory is. -/
theorem Aligned.moveTarget (h : Aligned d d') (hok : d.moveTarget path = .ok place) :
    d'.moveTarget path = .ok place ∧ d.isDirectory place = false := by
  obtain ⟨⟨front, name, above, hnames⟩, hfile⟩ := exists_names hok
  exact ⟨(h.names hnames).moveTarget ((h.isDirectory place).trans hfile), hfile⟩

/-!
# Writes
-/

/-- Where a text goes through that is written to the path: one place at most, and none where
a directory is in the way. -/
def passage (d : Disk) (path : Path) : Set Place :=
  { place | ¬ path.text.toList.contains '\x00' ∧
    d.followAll path path.neighbourPieces = .ok place ∧ d.isDirectory place = false }

theorem write_of_mem_passage (h : place ∈ d.passage path) (text : String) :
    d.write path text =
      match (d.put place (.file text.toUTF8)).moveTarget path with
      | .ok target =>
          (.ok (), (d.put place (.file text.toUTF8)).move place target text.toUTF8)
      | .error e => (.error e, (d.put place (.file text.toUTF8)).remove place) := by
  obtain ⟨hnamed, hneighbour, hfresh⟩ := h
  have hstaged : (do
      if path.text.toList.contains '\x00' then throw .zeroCharacter
      let place ← d.followAll path path.neighbourPieces
      pure (place, ← d.writeFresh place text.toUTF8) : Except FileError (Place × Disk)) =
        .ok (place, d.put place (.file text.toUTF8)) := by
    rw [if_neg hnamed]
    refine bind_eq_ok_iff.mpr ⟨place, hneighbour, ?_⟩
    refine bind_eq_ok_iff.mpr ⟨d.put place (.file text.toUTF8), ?_, rfl⟩
    rw [writeFresh, hfresh]
    rfl
  cases htarget : (d.put place (.file text.toUTF8)).moveTarget path
  all_goals
    unfold Disk.write
    simp only
    rw [hstaged]
    simp only
    rw [htarget]

/-- Where a text cannot go through it is not written anywhere. -/
theorem write_of_passage_eq_empty (h : d.passage path = ∅) (text : String) :
    ∃ e, d.write path text = (.error e, d) := by
  unfold Disk.write
  simp only
  split
  · rename_i e _
    exact ⟨e, rfl⟩
  · rename_i place staged hstaged
    split at hstaged
    · cases hstaged
    · rename_i hnamed
      obtain ⟨place, hneighbour, hstaged⟩ := bind_eq_ok_iff.mp hstaged
      obtain ⟨_, hfresh, _⟩ := bind_eq_ok_iff.mp hstaged
      unfold writeFresh at hfresh
      split at hfresh
      · cases hfresh
      · rename_i hdirectory
        have hmem : place ∈ d.passage path :=
          ⟨hnamed, hneighbour, eq_false_of_ne_true hdirectory⟩
        rw [h] at hmem
        cases hmem

/-- Where a write goes, and what it is written through. -/
structure Writes (d : Disk) (path : Path) (bytes : ByteArray) (place target : Place) : Prop where
  named : ¬ path.text.toList.contains '\x00'
  neighbour : d.followAll path path.neighbourPieces = .ok place
  fresh : d.isDirectory place = false
  target : (d.put place (.file bytes)).moveTarget path = .ok target

theorem Writes.write (h : Writes d path text.toUTF8 place place') :
    d.write path text =
      (.ok (), (d.put place (.file text.toUTF8)).move place place' text.toUTF8) := by
  rw [write_of_mem_passage ⟨h.named, h.neighbour, h.fresh⟩, h.target]

theorem exists_writes (h : (d.write path text).1 = .ok ()) :
    ∃ place target, Writes d path text.toUTF8 place target := by
  rcases (d.passage path).eq_empty_or_nonempty with hempty | ⟨place, hplace⟩
  · obtain ⟨e, hwrite⟩ := write_of_passage_eq_empty hempty text
    rw [hwrite] at h
    cases h
  · rw [write_of_mem_passage hplace] at h
    split at h
    · rename_i target htarget
      exact ⟨place, target, hplace.left, hplace.right.left, hplace.right.right, htarget⟩
    · cases h

theorem Aligned.writes (h : Aligned d d') (hwrites : Writes d path bytes place place') :
    Writes d' path bytes place place' where
  named := hwrites.named
  neighbour := h.followAll hwrites.neighbour
  fresh := (h.isDirectory place).trans hwrites.fresh
  target := ((h.put place bytes).moveTarget hwrites.target).left

/-- No file becomes a directory, and no directory a file. -/
theorem Writes.aligned (h : Writes d path bytes place place') :
    Aligned d ((d.put place (.file bytes)).move place place' bytes) := by
  have hput := aligned_put h.fresh bytes
  have hremove : Aligned (d.put place (.file bytes)) ((d.put place (.file bytes)).remove place) :=
    aligned_remove ((hput.isDirectory place).trans h.fresh)
  refine (hput.trans hremove).trans (aligned_put ?_ bytes)
  exact (hremove.isDirectory place').trans (((Aligned.refl _).moveTarget h.target).right)

/-!
# The store
-/

/-- The disks are the same, and all of the files can be written. -/
structure Alike (files : Set Path) (d d' : Disk) : Prop where
  same : d' = d
  writable : ∀ path ∈ files, ∀ text, (d.write path text).1 = .ok ()

/-- A file that can be written can be written after another one. -/
theorem write_ok_of_write_ok {path' : Path} {text' : String} (h : (d.write path text).1 = .ok ())
    (h' : (d.write path' text').1 = .ok ()) :
    ((d.write path text).2.write path' text').1 = .ok () := by
  rcases exists_writes h with ⟨place, target, hwrites⟩
  rcases exists_writes h' with ⟨place', target', hwrites'⟩
  rw [hwrites.write, (hwrites.aligned.writes hwrites').write]

end Disk
end Ripple
