import Ripple.Path.Map
import Ripple.Text.Blank

/-!
# Projects

A project owns documents and refers to other projects by their ids. Options are
kept in the order of their keys. Overriding replaces the text of every document
whose path has an override and leaves the rest as it is.
-/

namespace Ripple

structure ProjectId where
  text : String
  deriving DecidableEq, Repr, Inhabited, Hashable, Ord

namespace ProjectId

/-- A blank id names no project. -/
def isValid (id : ProjectId) : Bool :=
  !Text.allBlank id.text

end ProjectId

structure Document where
  path : Path
  content : String
  deriving DecidableEq, Repr, Inhabited

/-- Texts that stand in for the contents of documents. -/
abbrev Overrides := PathMap String

structure Options where
  rows : List (String × String)
  deriving DecidableEq, Repr, Inhabited

namespace Options

def empty : Options := ⟨[]⟩

def get? (o : Options) (key : String) : Option String :=
  (o.rows.find? fun row => row.1 = key).map Prod.snd

def placeOption (key value : String) : List (String × String) → List (String × String)
  | [] => [(key, value)]
  | row :: rows =>
      if row.1 = key then (key, value) :: rows
      else if row.1 < key then row :: placeOption key value rows
      else (key, value) :: row :: rows

def insert (o : Options) (key value : String) : Options :=
  ⟨placeOption key value o.rows⟩

def ofList (rows : List (String × String)) : Options :=
  rows.foldl (fun o row => o.insert row.1 row.2) empty

end Options

structure Project where
  id : ProjectId
  name : String
  documents : List Document
  references : List ProjectId
  metadata : List String
  options : Options
  deriving DecidableEq, Repr, Inhabited

/-!
# Documents of a project
-/

namespace Document

def override (overrides : Overrides) (d : Document) : Document :=
  match overrides.get? d.path with
  | some text => { d with content := text }
  | none => d

end Document

namespace Project

def document? (p : Project) (path : Path) : Option Document :=
  p.documents.find? fun d => d.path.same path

/-- Some document of the project has an override. -/
def isTouchedBy (p : Project) (overrides : Overrides) : Bool :=
  p.documents.any fun d => overrides.contains d.path

def override (overrides : Overrides) (p : Project) : Project :=
  { p with documents := p.documents.map (Document.override overrides) }

end Project
end Ripple
