import Ripple.Table

/-!
# Environments

An environment gives values to names. Assignments that are added later give a
value only to names that have none.
-/

namespace Ripple

structure Environment where
  values : Table String String
  deriving Repr

namespace Environment

instance : Inhabited Environment := ⟨⟨∅⟩⟩

/-- The last value counts where a name is given twice. -/
def ofList (rows : List (String × String)) : Environment :=
  ⟨rows.foldl (fun t row => t.insert row.1 row.2) ∅⟩

def get? (e : Environment) (name : String) : Option String :=
  e.values.get? name

/-- The value of a name, empty if it has none. -/
def valueOf (e : Environment) (name : String) : String :=
  (e.get? name).getD ""

def add (e : Environment) (name value : String) : Environment :=
  if e.values.contains name then e else ⟨e.values.insert name value⟩

theorem get?_add_of_get? (e : Environment) {name name' value value' : String}
    (h : e.get? name = some value) : (e.add name' value').get? name = some value := by
  unfold add
  split
  · exact h
  · rename_i hmiss
    have hne : name ≠ name' := by
      intro heq
      subst heq
      simp [Table.contains, get?] at hmiss h
      simp [hmiss] at h
    simpa [get?, Table.get?_insert_of_ne _ hne] using h

end Environment
end Ripple
