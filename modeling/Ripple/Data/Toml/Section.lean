import Ripple.Data.Value

/-!
# Sections of a TOML file

While a file is read, a section remembers how it came to be: by a header of its
own, as a step on the way to a deeper header (`open_`), or as a step of a dotted
key (`dotted`). What may still be added to it depends on that.
-/

namespace Ripple
namespace Data
namespace Toml

mutual

/-- A section and its entries, in the order in which they arrived. -/
inductive Section where
  | mk (isOpen dotted : Bool) (entries : List (String × Entry))

inductive Entry where
  | value (v : Value)
  | single (s : Section)
  | many (ss : List Section)

end

namespace Section

def isOpen : Section → Bool
  | .mk isOpen _ _ => isOpen

def dotted : Section → Bool
  | .mk _ dotted _ => dotted

def entries : Section → List (String × Entry)
  | .mk _ _ entries => entries

/-- A section with a header of its own, and nothing in it yet. -/
def headed : Section := .mk false false []

instance : Inhabited Section := ⟨headed⟩

def entry? (s : Section) (key : String) : Option Entry :=
  (s.entries.find? fun e => e.1 = key).map Prod.snd

/-- An entry that is there keeps its place. -/
def setEntry (s : Section) (key : String) (e : Entry) : Section :=
  let entries :=
    if s.entries.any fun old => old.1 = key then
      s.entries.map fun old => if old.1 = key then (key, e) else old
    else s.entries ++ [(key, e)]
  .mk s.isOpen s.dotted entries

/-- Changes the section at the end of a path. Missing steps are made on the way;
of several sections the last one is meant; a value is no section. By a dotted
key no section can be entered that has a header of its own. -/
def descend (byKey : Bool) : List String → (Section → Option Section) → Section → Option Section
  | [], change, s => change s
  | key :: path, change, s => do
      let e := (s.entry? key).getD (.single (.mk true byKey []))
      match e with
      | .value _ => none
      | .single inner =>
          if byKey && !inner.isOpen then none
          else
            let inner ← descend byKey path change inner
            some (s.setEntry key (.single inner))
      | .many sections => do
          let last ← sections.getLast?
          let last ← descend byKey path change last
          some (s.setEntry key (.many (sections.dropLast ++ [last])))

/-- The section that a header opens. -/
def openHeader (path : List String) (s : Section) : Option Section := do
  let key ← path.getLast?
  descend false path.dropLast (fun parent =>
    match parent.entry? key with
    | none => some (parent.setEntry key (.single headed))
    | some (.single (.mk true false entries)) =>
        some (parent.setEntry key (.single (.mk false false entries)))
    | some _ => none) s

/-- The next of several sections under one header. -/
def openNext (path : List String) (s : Section) : Option Section := do
  let key ← path.getLast?
  descend false path.dropLast (fun parent =>
    match parent.entry? key with
    | none => some (parent.setEntry key (.many [headed]))
    | some (.many sections) => some (parent.setEntry key (.many (sections ++ [headed])))
    | some _ => none) s

/-- A key and its value. A plain key goes into a section that no dotted key has
made, a dotted one only into one that a dotted key has made. -/
def addValue (path : List String) (v : Value) (s : Section) : Option Section := do
  let key ← path.getLast?
  let steps := path.dropLast
  descend true steps (fun parent =>
    if parent.dotted = steps.isEmpty then none
    else match parent.entry? key with
      | none => some (parent.setEntry key (.value v))
      | some _ => none) s

/-- Changes the section that the last header opened. -/
def within (header : List String) (change : Section → Option Section) (s : Section) :
    Option Section :=
  descend false header change s

end Section

/-!
# The finished value
-/

mutual

def Section.toValue : Section → Value
  | .mk _ _ entries => .object (entryValues entries)

def Entry.toValue : Entry → Value
  | .value v => v
  | .single s => s.toValue
  | .many ss => .list (sectionValues ss)

def entryValues : List (String × Entry) → List (String × Value)
  | [] => []
  | (key, e) :: rest => (key, e.toValue) :: entryValues rest

def sectionValues : List Section → List Value
  | [] => []
  | s :: rest => s.toValue :: sectionValues rest

end

end Toml
end Data
end Ripple
