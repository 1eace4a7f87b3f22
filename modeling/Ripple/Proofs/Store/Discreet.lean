import Mathlib.Data.Set.Defs
import Ripple.Store.Memory

/-!
# Stores that tell little

What can be told of a store is what is read in it, what is loaded from it, and which
writes succeed. A store is discreet if loads and failed writes leave no trace, and if it
does not show in the success of a write which files have been written.
-/

namespace Ripple

variable {σ : Type}

namespace Store

/-- States that are alike cannot be told apart, and a state that is alike to itself is in
order. Nothing is said about the files but what holds while states are in order: that
they can be written independently of each other. -/
structure Discreet (st : Store σ) (files : Set Path) (alike : σ → σ → Prop) : Prop where
  symm : ∀ {m m'}, alike m m' → alike m' m
  trans : ∀ {m m' m''}, alike m m' → alike m' m'' → alike m m''
  read : ∀ {m m'}, alike m m' → ∀ path, st.read m' path = st.read m path
  load : ∀ {m m'}, alike m m' → ∀ source root,
    (st.load m' source root).1 = (st.load m source root).1
  written : ∀ {m m'}, alike m m' → ∀ path text, (st.write m' path text).1 = (st.write m path text).1
  write : ∀ {m m'}, alike m m' → ∀ path ∈ files, ∀ text,
    alike (st.write m path text).2 (st.write m' path text).2
  traceless : ∀ {m}, alike m m → ∀ source root, alike m (st.load m source root).2
  unwritten : ∀ {m}, alike m m → ∀ path ∈ files, ∀ text e, (st.write m path text).1 = .error e →
    alike m (st.write m path text).2
  decided : ∀ {m}, alike m m → ∀ path ∈ files, ∀ path' ∈ files, ∀ text text',
    (st.write (st.write m path text).2 path' text').1 = (st.write m path' text').1

/-- Two states of a store, for someone who can write the files in both. As long as
nobody else has written one, the two are alike. -/
structure Paired (st : Store σ) (files : Set Path) (alike : σ → σ → Prop) (alone : Prop)
    (m m' : σ) : Prop where
  left : alike m m
  right : alike m' m'
  alike : alone → alike m m'
  writable : ∀ path ∈ files, ∀ text, (st.write m' path text).1 = (st.write m path text).1

variable {st : Store σ} {files : Set Path} {alike : σ → σ → Prop} {alone alone' : Prop} {m m' : σ}
  {path : Path}

theorem paired_refl (h : alike m m) : st.Paired files alike alone m m :=
  ⟨h, h, fun _ => h, fun _ _ _ => rfl⟩

theorem Paired.imp (h : st.Paired files alike alone m m') (himp : alone' → alone) :
    st.Paired files alike alone' m m' :=
  ⟨h.left, h.right, fun halone => h.alike (himp halone), h.writable⟩

/-- What cannot be told apart from one of the two states may take its place. -/
theorem Paired.trans_left (h : st.Paired files alike alone m m') (hst : st.Discreet files alike)
    {m₁ : σ} (halike : alike m m₁) : st.Paired files alike alone m₁ m' where
  left := hst.trans (hst.symm halike) halike
  right := h.right
  alike halone := hst.trans (hst.symm halike) (h.alike halone)
  writable path hpath text :=
    (h.writable path hpath text).trans (hst.written halike path text).symm

theorem Paired.trans_right (h : st.Paired files alike alone m m') (hst : st.Discreet files alike)
    {m₁ : σ} (halike : alike m' m₁) : st.Paired files alike alone m m₁ where
  left := h.left
  right := hst.trans (hst.symm halike) halike
  alike halone := hst.trans (h.alike halone) halike
  writable path hpath text := (hst.written halike path text).trans (h.writable path hpath text)

theorem Paired.load_left (h : st.Paired files alike alone m m') (hst : st.Discreet files alike)
    (source : Source) (root : Path) :
    st.Paired files alike alone (st.load m source root).2 m' :=
  h.trans_left hst (hst.traceless h.left source root)

/-- Loads make no difference. -/
theorem Paired.load (h : st.Paired files alike alone m m') (hst : st.Discreet files alike)
    (source : Source) (root : Path) :
    st.Paired files alike alone (st.load m source root).2 (st.load m' source root).2 :=
  (h.load_left hst source root).trans_right hst (hst.traceless h.right source root)

/-- A write in both states makes no difference. -/
theorem Paired.write (h : st.Paired files alike alone m m') (hst : st.Discreet files alike)
    (hpath : path ∈ files) (text : String) :
    st.Paired files alike alone (st.write m path text).2 (st.write m' path text).2 where
  left := hst.write h.left path hpath text
  right := hst.write h.right path hpath text
  alike halone := hst.write (h.alike halone) path hpath text
  writable path' hpath' text' := by
    rw [hst.decided h.right path hpath path' hpath', hst.decided h.left path hpath path' hpath']
    exact h.writable path' hpath' text'

/-- After a write in one of them the states may be told apart, but not by writing. -/
theorem Paired.write_left (h : st.Paired files alike alone m m') (hst : st.Discreet files alike)
    (hpath : path ∈ files) (text : String) (hothers : ¬ alone') :
    st.Paired files alike alone' (st.write m path text).2 m' where
  left := hst.write h.left path hpath text
  right := h.right
  alike halone := absurd halone hothers
  writable path' hpath' text' := by
    rw [hst.decided h.left path hpath path' hpath']
    exact h.writable path' hpath' text'

end Store

/-!
# The store in memory
-/

namespace Memory

/-- The states differ in what is counted at most. -/
structure Alike (m m' : Memory) : Prop where
  files : m'.files = m.files
  closed : m'.closed = m.closed
  workspace : m'.workspace = m.workspace
  isBroken : m'.isBroken = m.isBroken

theorem Alike.refl (m : Memory) : Alike m m := ⟨rfl, rfl, rfl, rfl⟩

end Memory
end Ripple
