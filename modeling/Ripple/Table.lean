/-!
# Finite tables

A table is a list of rows, a key with its value. Inserting keeps the place of a
key that is already there, so the order of the rows is the order in which their
keys first arrived, and no key has two rows.
-/

namespace Ripple

structure Table (κ : Type) (ν : Type) where
  rows : List (κ × ν)
  deriving Repr

namespace Table

variable {κ ν : Type}

instance : Inhabited (Table κ ν) := ⟨⟨[]⟩⟩

def empty : Table κ ν := ⟨[]⟩

instance : EmptyCollection (Table κ ν) := ⟨empty⟩

def size (t : Table κ ν) : Nat := t.rows.length

def keys (t : Table κ ν) : List κ := t.rows.map Prod.fst

def values (t : Table κ ν) : List ν := t.rows.map Prod.snd

/-!
# Reading and writing one key
-/

section ByKey

variable [DecidableEq κ]

def get? (t : Table κ ν) (k : κ) : Option ν :=
  (t.rows.find? fun row => row.1 = k).map Prod.snd

def contains (t : Table κ ν) (k : κ) : Bool :=
  (t.get? k).isSome

def insertRow (k : κ) (v : ν) : List (κ × ν) → List (κ × ν)
  | [] => [(k, v)]
  | row :: rows => if row.1 = k then (row.1, v) :: rows else row :: insertRow k v rows

/-- A key that is there keeps its row, with the new value. -/
def insert (t : Table κ ν) (k : κ) (v : ν) : Table κ ν :=
  ⟨insertRow k v t.rows⟩

def erase (t : Table κ ν) (k : κ) : Table κ ν :=
  ⟨t.rows.filter fun row => row.1 ≠ k⟩

def modify (t : Table κ ν) (k : κ) (f : ν → ν) : Table κ ν :=
  ⟨t.rows.map fun row => if row.1 = k then (row.1, f row.2) else row⟩

end ByKey

/-- The rows whose key and value pass the test. -/
def filter (t : Table κ ν) (keep : κ → ν → Bool) : Table κ ν :=
  ⟨t.rows.filter fun row => keep row.1 row.2⟩

/-!
# What the operations do to a look-up
-/

section Lemmas

variable [DecidableEq κ]

@[simp] theorem get?_empty (k : κ) : (empty : Table κ ν).get? k = none := rfl

private theorem find?_insertRow_self (k : κ) (v : ν) (rows : List (κ × ν)) :
    ((insertRow k v rows).find? fun row => row.1 = k).map Prod.snd = some v := by
  induction rows with
  | nil => simp [insertRow]
  | cons row rows ih =>
      by_cases h : row.1 = k
      · simp [insertRow, h]
      · simpa [insertRow, h] using ih

private theorem find?_insertRow_of_ne {k k' : κ} (hne : k' ≠ k) (v : ν)
    (rows : List (κ × ν)) :
    ((insertRow k v rows).find? fun row => row.1 = k').map Prod.snd =
      (rows.find? fun row => row.1 = k').map Prod.snd := by
  induction rows with
  | nil => simp [insertRow, Ne.symm hne]
  | cons row rows ih =>
      by_cases h : row.1 = k
      · have h' : ¬ row.1 = k' := fun e => hne (e.symm.trans h)
        simp [insertRow, h, Ne.symm hne]
      · by_cases h' : row.1 = k'
        · simp [insertRow, h', hne]
        · simpa [insertRow, h, h'] using ih

@[simp] theorem get?_insert_self (t : Table κ ν) (k : κ) (v : ν) :
    (t.insert k v).get? k = some v :=
  find?_insertRow_self k v t.rows

theorem get?_insert_of_ne (t : Table κ ν) {k k' : κ} (hne : k' ≠ k) (v : ν) :
    (t.insert k v).get? k' = t.get? k' :=
  find?_insertRow_of_ne hne v t.rows

@[simp] theorem get?_erase_self (t : Table κ ν) (k : κ) : (t.erase k).get? k = none := by
  simp [get?, erase, List.find?_filter, List.find?_eq_none]

theorem get?_erase_of_ne (t : Table κ ν) {k k' : κ} (hne : k' ≠ k) :
    (t.erase k).get? k' = t.get? k' := by
  obtain ⟨rows⟩ := t
  induction rows with
  | nil => rfl
  | cons row rows ih =>
      by_cases h : row.1 = k
      · have h' : ¬ row.1 = k' := fun e => hne (e.symm.trans h)
        simpa [get?, erase, h, h', Ne.symm hne] using ih
      · by_cases h' : row.1 = k'
        · simp [get?, erase, h', hne]
        · simpa [get?, erase, h, h'] using ih

theorem get?_insert (t : Table κ ν) (k k' : κ) (v : ν) :
    (t.insert k v).get? k' = if k' = k then some v else t.get? k' := by
  by_cases h : k' = k
  · rw [if_pos h, h, get?_insert_self]
  · rw [if_neg h, get?_insert_of_ne t h]

theorem get?_erase (t : Table κ ν) (k k' : κ) :
    (t.erase k).get? k' = if k' = k then none else t.get? k' := by
  by_cases h : k' = k
  · rw [if_pos h, h, get?_erase_self]
  · rw [if_neg h, get?_erase_of_ne t h]

theorem get?_filter_keys (t : Table κ ν) (keep : κ → Bool) (k : κ) :
    (t.filter fun k' _ => keep k').get? k = if keep k then t.get? k else none := by
  obtain ⟨rows⟩ := t
  induction rows with
  | nil => simp [get?, filter]
  | cons row rows ih =>
      simp only [get?, filter] at ih ⊢
      by_cases hkeep : keep row.1
      · by_cases hk : row.1 = k
        · subst hk
          simp [hkeep]
        · simpa [hkeep, hk] using ih
      · by_cases hk : row.1 = k
        · subst hk
          simpa [hkeep] using ih
        · simpa [hkeep, hk] using ih

theorem get?_modify (t : Table κ ν) (k k' : κ) (f : ν → ν) :
    (t.modify k f).get? k' = if k' = k then (t.get? k').map f else t.get? k' := by
  obtain ⟨rows⟩ := t
  induction rows with
  | nil => simp [get?, modify]
  | cons row rows ih =>
      simp only [get?, modify] at ih ⊢
      by_cases hrow : row.1 = k
      · by_cases hk : k = k'
        · subst hk
          simp [hrow]
        · simpa [hrow, hk, Ne.symm hk] using ih
      · by_cases hk : row.1 = k'
        · subst hk
          simp [hrow]
        · simpa [hrow, hk] using ih

theorem mem_rows_of_get? {t : Table κ ν} {k : κ} {v : ν} (h : t.get? k = some v) :
    (k, v) ∈ t.rows := by
  rw [get?, Option.map_eq_some_iff] at h
  obtain ⟨row, hfind, rfl⟩ := h
  have hkey : row.1 = k := by simpa using List.find?_some hfind
  subst hkey
  exact List.mem_of_find?_eq_some hfind

/-!
# Keys
-/

@[simp] theorem keys_modify (t : Table κ ν) (k : κ) (f : ν → ν) :
    (t.modify k f).keys = t.keys := by
  simp only [keys, modify, List.map_map]
  apply List.map_congr_left
  intro row _
  by_cases h : row.1 = k <;> simp [h]

theorem mem_keys_iff {t : Table κ ν} {k : κ} : k ∈ t.keys ↔ ∃ v, t.get? k = some v := by
  simp only [keys, get?, Option.map_eq_some_iff, List.mem_map]
  constructor
  · rintro ⟨row, hrow, rfl⟩
    cases hfind : t.rows.find? (fun row' => row'.1 = row.1) with
    | none => simpa using List.find?_eq_none.mp hfind row hrow
    | some row' => exact ⟨row'.2, row', rfl, rfl⟩
  · rintro ⟨_, row, hfind, rfl⟩
    exact ⟨row, List.mem_of_find?_eq_some hfind, by simpa using List.find?_some hfind⟩

theorem get?_of_mem_rows {t : Table κ ν} (hnodup : t.keys.Nodup) {k : κ} {v : ν}
    (h : (k, v) ∈ t.rows) : t.get? k = some v := by
  obtain ⟨rows⟩ := t
  induction rows with
  | nil => cases h
  | cons row rows ih =>
      rw [keys, List.map_cons, List.nodup_cons] at hnodup
      rcases List.mem_cons.mp h with rfl | h
      · simp [get?]
      · have hne : row.1 ≠ k := by
          intro hkey
          exact hnodup.left (List.mem_map.mpr ⟨(k, v), h, hkey.symm⟩)
        simpa [get?, hne] using ih hnodup.right h

private theorem insertRow_of_not_mem {k : κ} {rows : List (κ × ν)}
    (h : k ∉ rows.map Prod.fst) (v : ν) : insertRow k v rows = rows ++ [(k, v)] := by
  induction rows with
  | nil => rfl
  | cons row rows ih =>
      rw [List.map_cons, List.mem_cons, not_or] at h
      rw [insertRow, if_neg (Ne.symm h.left), ih h.right, List.cons_append]

/-- A new key takes the last row. -/
theorem rows_insert_of_get?_none {t : Table κ ν} {k : κ} (h : t.get? k = none) (v : ν) :
    (t.insert k v).rows = t.rows ++ [(k, v)] := by
  apply insertRow_of_not_mem
  intro hmem
  obtain ⟨v', hv'⟩ := mem_keys_iff.mp hmem
  rw [h] at hv'
  cases hv'

private theorem map_fst_insertRow_of_mem {k : κ} {rows : List (κ × ν)}
    (h : k ∈ rows.map Prod.fst) (v : ν) :
    (insertRow k v rows).map Prod.fst = rows.map Prod.fst := by
  induction rows with
  | nil => cases h
  | cons row rows ih =>
      by_cases hrow : row.1 = k
      · simp [insertRow, hrow]
      · have hmem : k ∈ rows.map Prod.fst := by
          rcases List.mem_cons.mp h with heq | h
          · exact absurd heq.symm hrow
          · exact h
        simp [insertRow, hrow, ih hmem]

theorem keys_insert_of_get? {t : Table κ ν} {k : κ} {v : ν} (h : t.get? k = some v) (v' : ν) :
    (t.insert k v').keys = t.keys :=
  map_fst_insertRow_of_mem (mem_keys_iff.mpr ⟨v, h⟩) v'

theorem nodup_keys_insert {t : Table κ ν} (h : t.keys.Nodup) (k : κ) (v : ν) :
    (t.insert k v).keys.Nodup := by
  by_cases hmem : k ∈ t.keys
  · rwa [keys, insert, map_fst_insertRow_of_mem hmem]
  · rw [keys, insert, insertRow_of_not_mem hmem, List.map_append, List.map_singleton]
    refine List.nodup_append.mpr ⟨h, List.pairwise_singleton _ k, ?_⟩
    rintro a ha c hc rfl
    rw [List.mem_singleton.mp hc] at ha
    exact hmem ha

theorem nodup_keys_erase {t : Table κ ν} (h : t.keys.Nodup) (k : κ) :
    (t.erase k).keys.Nodup :=
  h.sublist (List.filter_sublist.map Prod.fst)

end Lemmas

end Table

end Ripple
