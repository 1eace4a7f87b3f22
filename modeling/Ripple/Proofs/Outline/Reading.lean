import Ripple.Outline.Module

/-!
# What reading a document comes to

The definitions and uses of a reading are those of the lines, in order and each at its
place. A reading is clean if every line has a shape and the braces pair up. Neither
depends on the project that the document is read for.
-/

namespace Ripple
namespace Outline

/-!
# Names in lines
-/

namespace LineShape

def defined? : LineShape → Option String
  | .definition name => some name
  | _ => none

def used? : LineShape → Option String
  | .usage name => some name
  | _ => none

end LineShape

/-- The name that is picked from the line, where it stands. -/
def Line.occurrence? (pick : LineShape → Option String) (path : Path) (l : Line) :
    Option Occurrence :=
  (pick l.shape).map fun name => ⟨name, path, l.number, l.column⟩

/-- All names that are picked from the lines of the document, in order. -/
def occurrences (pick : LineShape → Option String) (d : Document) : List Occurrence :=
  (linesOf d.content).filterMap (Line.occurrence? pick d.path)

/-!
# Braces
-/

/-- Every line has a shape, and the braces pair up where so many blocks are open. -/
def closes : Nat → List Line → Bool
  | depth, [] => depth = 0
  | depth, l :: ls =>
      match l.shape, depth with
      | .opening, depth => closes (depth + 1) ls
      | .closing, 0 => false
      | .closing, outer + 1 => closes outer ls
      | .other _, _ => false
      | _, depth => closes depth ls

/-- The document has no error of syntax. -/
def parses (d : Document) : Bool :=
  closes 0 (linesOf d.content)

/-!
# Line by line
-/

namespace Reading

theorem reading_step (project : ProjectId) (p : Progress) (l : Line) :
    (step project p l).reading.path = p.reading.path ∧
      (step project p l).reading.definitions = p.reading.definitions ++
        (l.occurrence? LineShape.defined? p.reading.path).toList ∧
      (step project p l).reading.uses = p.reading.uses ++
        (l.occurrence? LineShape.used? p.reading.path).toList := by
  unfold step Line.occurrence?
  cases l.shape with
  | closing => cases p.blocks <;> simp [LineShape.defined?, LineShape.used?]
  | _ => simp [LineShape.defined?, LineShape.used?]

theorem reading_foldl (project : ProjectId) (p : Progress) (ls : List Line) :
    (ls.foldl (step project) p).reading.path = p.reading.path ∧
      (ls.foldl (step project) p).reading.definitions = p.reading.definitions ++
        ls.filterMap (Line.occurrence? LineShape.defined? p.reading.path) ∧
      (ls.foldl (step project) p).reading.uses = p.reading.uses ++
        ls.filterMap (Line.occurrence? LineShape.used? p.reading.path) := by
  induction ls generalizing p with
  | nil => simp
  | cons l ls ih =>
      rcases ih (step project p l) with ⟨hpath, hdefinitions, huses⟩
      rcases reading_step project p l with ⟨hpath', hdefinitions', huses'⟩
      rw [hpath'] at hpath hdefinitions huses
      rw [hdefinitions'] at hdefinitions
      rw [huses'] at huses
      rw [List.foldl_cons]
      refine ⟨hpath, ?_, ?_⟩
      · rw [hdefinitions, List.append_assoc, List.filterMap_cons]
        cases l.occurrence? LineShape.defined? p.reading.path <;> rfl
      · rw [huses, List.append_assoc, List.filterMap_cons]
        cases l.occurrence? LineShape.used? p.reading.path <;> rfl

theorem definitions_ofDocument (project : ProjectId) (d : Document) :
    (ofDocument project d).definitions = occurrences LineShape.defined? d := by
  rcases reading_foldl project (start d.path) (linesOf d.content) with ⟨_, hdefinitions, _⟩
  exact hdefinitions

theorem uses_ofDocument (project : ProjectId) (d : Document) :
    (ofDocument project d).uses = occurrences LineShape.used? d := by
  rcases reading_foldl project (start d.path) (linesOf d.content) with ⟨_, _, huses⟩
  exact huses

/-!
# Errors of syntax
-/

theorem syntaxErrors_finish (project : ProjectId) (p : Progress) :
    (finish project p).syntaxErrors = [] ↔ p.reading.syntaxErrors = [] ∧ p.blocks = [] := by
  simp [finish]

/-- Errors of lines stay, and the lines that follow are read at the depth that has been
reached. -/
theorem syntaxErrors_foldl (project : ProjectId) (p : Progress) (ls : List Line) :
    (finish project (ls.foldl (step project) p)).syntaxErrors = [] ↔
      p.reading.syntaxErrors = [] ∧ closes p.blocks.length ls := by
  induction ls generalizing p with
  | nil => simp [syntaxErrors_finish, closes]
  | cons l ls ih =>
      rw [List.foldl_cons, ih]
      cases hshape : l.shape with
      | closing => cases hblocks : p.blocks <;> simp [step, closes, hshape, hblocks]
      | _ => simp [step, closes, hshape]

theorem isClean_ofDocument (project : ProjectId) (d : Document) :
    (ofDocument project d).isClean = parses d := by
  rw [Bool.eq_iff_iff, isClean, List.isEmpty_iff, ofDocument, syntaxErrors_foldl]
  simp [start, parses]

theorem rule_of_step {project : ProjectId} {p : Progress}
    (hp : ∀ e ∈ p.reading.syntaxErrors, e.rule = syntaxRule) (l : Line) :
    ∀ e ∈ (step project p l).reading.syntaxErrors, e.rule = syntaxRule := by
  have hmore (message : String) : ∀ e ∈ p.reading.syntaxErrors ++
      [syntaxError project p.reading.path l.number l.column message], e.rule = syntaxRule := by
    intro e he
    rcases List.mem_append.mp he with he | he
    · exact hp e he
    · rw [List.mem_singleton.mp he]
      rfl
  unfold step
  cases l.shape with
  | closing =>
      cases p.blocks with
      | nil => exact hmore unexpectedClosing
      | cons place outer => exact hp
  | other text => exact hmore (unknownLine text)
  | _ => exact hp

/-- All errors of a reading are errors of syntax. -/
theorem rule_of_mem_syntaxErrors {project : ProjectId} {d : Document} {e : Diagnostic}
    (h : e ∈ (ofDocument project d).syntaxErrors) : e.rule = syntaxRule := by
  have hfold (ls : List Line) (p : Progress)
      (hp : ∀ e ∈ p.reading.syntaxErrors, e.rule = syntaxRule) :
      ∀ e ∈ (ls.foldl (step project) p).reading.syntaxErrors, e.rule = syntaxRule := by
    induction ls generalizing p with
    | nil => exact hp
    | cons l ls ih => exact ih (step project p l) (rule_of_step hp l)
  rcases List.mem_append.mp h with h | h
  · exact hfold _ (start d.path) (fun e he => (List.not_mem_nil he).elim) e h
  · rcases List.mem_map.mp h with ⟨place, _, rfl⟩
    rfl

end Reading
end Outline
end Ripple
