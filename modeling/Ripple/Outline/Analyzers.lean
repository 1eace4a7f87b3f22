import Ripple.Outline.Module

/-!
# Analyzers of outline modules

Three analyzers look at a module as a whole: one lists the remarks that begin
with `TODO`, one finds documents without a statement, and one finds names that
are not written in lower case. A set of analyzers runs in the order of its
names, and names that no analyzer has are skipped.
-/

namespace Ripple
namespace Outline

inductive Analyzer where
  | emptyDocument
  | naming
  | todoComment
  deriving DecidableEq, Repr, Inhabited

namespace Analyzer

def name : Analyzer → String
  | .emptyDocument => "empty-document"
  | .naming => "naming"
  | .todoComment => "todo-comment"

def all : List Analyzer := [.emptyDocument, .naming, .todoComment]

def ofName? (s : String) : Option Analyzer :=
  all.find? fun a => a.name = s

theorem ofName?_name (a : Analyzer) : ofName? a.name = some a := by
  cases a <;> decide

/-- The analyzers that run unless they are disabled. -/
def defaults : List Analyzer := [.naming, .todoComment]

def todoRule : String := "AR2001"

def emptyRule : String := "AR2002"

def namingRule : String := "AR2003"

def isLower (c : Char) : Bool :=
  ('a' ≤ c && c ≤ 'z') || c = '_'

/-- A lower-case letter or an underscore, then such characters and digits. -/
def isSnakeCase : List Char → Bool
  | [] => false
  | c :: rest => isLower c && rest.all fun d => isLower d || isDigit d

def isTodo : List Char → Bool
  | 'T' :: 'O' :: 'D' :: 'O' :: _ => true
  | _ => false

def todos (project : ProjectId) (r : Reading) : List Diagnostic :=
  (r.comments.filter fun c => isTodo c.2.toList).map fun c =>
    ⟨todoRule, .info, c.2, r.path, c.1, 1, project⟩

def emptiness (project : ProjectId) (r : Reading) : List Diagnostic :=
  if r.isClean && r.statements = 0 then
    [⟨emptyRule, .warning, "document has no statements", r.path, 1, 1, project⟩]
  else []

def misnomers (project : ProjectId) (r : Reading) : List Diagnostic :=
  (r.definitions.filter fun o => !isSnakeCase o.name.toList).map fun o =>
    ⟨namingRule, .warning, "\x60" ++ o.name ++ "\x60 should be snake_case",
      o.file, o.line, o.column, project⟩

def run (a : Analyzer) (m : Module) : List Diagnostic :=
  match a with
  | .todoComment => m.documents.flatMap (todos m.project)
  | .emptyDocument => m.documents.flatMap (emptiness m.project)
  | .naming => m.documents.flatMap (misnomers m.project)

/-- What the analyzer of a name finds, if there is such an analyzer. -/
def run? (name : String) (m : Module) : Option (List Diagnostic) :=
  (ofName? name).map fun a => a.run m

end Analyzer

/-- The analyzers that a choice leaves running. -/
def analyzersOf (c : AnalyzerChoice) : AnalyzerSet :=
  let base := if c.useDefaults then Analyzer.defaults.map Analyzer.name else []
  let more := c.additional.filter fun n => (Analyzer.ofName? n).isSome
  .ofNames ((base ++ more).filter fun n => n ∉ c.disabled)

/-!
# The outline backend
-/

def notOutline (id : ProjectId) : String :=
  "Artifact for " ++ id.text ++ " was not produced by the outline backend"

def analyze (a : Artifact Payload) (s : AnalyzerSet) : Except String (List Diagnostic) :=
  match a.payload.module? with
  | none => .error (notOutline a.project)
  | some m => .ok (s.names.flatMap fun n => (Analyzer.run? n m).getD [])

def backend : Backend Payload where
  name := "outline"
  environment := "outline/1"
  compile := fun u => .compiled ⟨u.project, .outline (Module.compile u)⟩
  diagnostics := fun a => a.payload.module?.elim [] Module.diagnostics
  analyze := analyze

end Outline

/-!
# Backends by name
-/

namespace Backend

def unknown (name : String) : String :=
  "Unknown compiler backend: " ++ name

def ofName? (name : String) : Except String (Backend Outline.Payload) :=
  if name = Outline.backend.name then .ok Outline.backend else .error (unknown name)

end Backend
end Ripple
