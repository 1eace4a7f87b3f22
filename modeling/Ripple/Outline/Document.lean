import Ripple.Diagnostic
import Ripple.Outline.Line

/-!
# Outline documents

Reading a document gathers what its lines define, use and remark. A line that
fits no shape and a brace without its partner are errors of syntax; the errors
of lines come first, in order, and then the blocks that were never closed.
-/

namespace Ripple
namespace Outline

/-- A name where it stands in a document. -/
structure Occurrence where
  name : String
  file : Path
  line : Nat
  column : Nat
  deriving DecidableEq, Repr, Inhabited

structure Reading where
  path : Path
  definitions : List Occurrence
  uses : List Occurrence
  /-- The line and the text of each comment. -/
  comments : List (Nat × String)
  statements : Nat
  syntaxErrors : List Diagnostic
  deriving DecidableEq, Repr, Inhabited

namespace Reading

/-- A document without errors of syntax. -/
def isClean (r : Reading) : Bool :=
  r.syntaxErrors.isEmpty

def syntaxRule : String := "AR1001"

def syntaxError (project : ProjectId) (path : Path) (line column : Nat) (message : String) :
    Diagnostic :=
  ⟨syntaxRule, .error, message, path, line, column, project⟩

def unexpectedClosing : String := "unexpected \x60\x7d\x60"

def unclosedOpening : String := "unclosed \x60\x7b\x60"

def unknownLine (text : String) : String :=
  "expected \x60def\x60, \x60use\x60, \x60\x7b\x60 or \x60\x7d\x60, found \x60" ++ text ++ "\x60"

/-!
# Line by line
-/

/-- What has been read so far, with the lines and columns of the open blocks,
the innermost first. -/
structure Progress where
  reading : Reading
  blocks : List (Nat × Nat)
  deriving Inhabited

def start (path : Path) : Progress :=
  ⟨⟨path, [], [], [], 0, []⟩, []⟩

def step (project : ProjectId) (p : Progress) (l : Line) : Progress :=
  let r := p.reading
  let occurrence := fun name => Occurrence.mk name r.path l.number l.column
  let refuse := fun message =>
    { r with
      syntaxErrors :=
        r.syntaxErrors ++ [syntaxError project r.path l.number l.column message] }
  match l.shape with
  | .blank => p
  | .comment text => { p with reading := { r with comments := r.comments ++ [(l.number, text)] } }
  | .opening =>
      ⟨{ r with statements := r.statements + 1 }, (l.number, l.column) :: p.blocks⟩
  | .closing =>
      match p.blocks with
      | [] => { p with reading := refuse unexpectedClosing }
      | _ :: outer => ⟨{ r with statements := r.statements + 1 }, outer⟩
  | .definition name =>
      { p with
        reading :=
          { r with
            definitions := r.definitions ++ [occurrence name]
            statements := r.statements + 1 } }
  | .usage name =>
      { p with
        reading :=
          { r with uses := r.uses ++ [occurrence name], statements := r.statements + 1 } }
  | .other text => { p with reading := refuse (unknownLine text) }

/-- Blocks that are still open at the end are errors where they were opened. -/
def finish (project : ProjectId) (p : Progress) : Reading :=
  let r := p.reading
  { r with
    syntaxErrors :=
      r.syntaxErrors ++
        p.blocks.reverse.map fun place =>
          syntaxError project r.path place.1 place.2 unclosedOpening }

def ofDocument (project : ProjectId) (d : Document) : Reading :=
  finish project ((linesOf d.content).foldl (step project) (start d.path))

end Reading
end Outline
end Ripple
