import Mathlib.Data.List.Forall2
import Ripple.Proofs.Outline.Grammar

/-!
# Reading on after an error

An error does not end the reading of a document. A closing brace that no open block
waits for and a line that the grammar has no item for are errors at their places, an
opening brace that is never closed is one at the end, and every other line that is not
blank counts as a statement or as a comment.
-/

namespace Ripple
namespace Outline

/-!
# What is in error
-/

/-- A line with the shape of what it says, or with its text if it says nothing. -/
structure Reads (row : List Char × Nat) (l : Line) : Prop where
  number : l.number = row.2
  column : l.column = Text.byteLength (row.1.takeWhile Text.isBlank) + 1
  shape : Says (Text.trim row.1) l.shape ∨
    (∀ s, ¬Says (Text.trim row.1) s) ∧ l.shape = .other (String.ofList (Text.trim row.1))

/-- A block is open behind these lines: only items follow one of their opening braces. -/
def Opened (before : List Line) : Prop :=
  ∃ front o inner, before = front ++ o :: inner ∧ o.shape = .opening ∧ Nested inner

/-- A block that is open before these lines is closed: only items precede one of their
closing braces. -/
def Closed (after : List Line) : Prop :=
  ∃ inner c rest, after = inner ++ c :: rest ∧ c.shape = .closing ∧ Nested inner

namespace Reading

/-- The error of a line behind others. -/
inductive Fault (project : ProjectId) (path : Path) (before : List Line) (l : Line) :
    Diagnostic → Prop
  | closing (hshape : l.shape = .closing) (hbefore : ¬Opened before) :
      Fault project path before l
        (syntaxError project path l.number l.column unexpectedClosing)
  | unknown {text : String} (hshape : l.shape = .other text) :
      Fault project path before l
        (syntaxError project path l.number l.column (unknownLine text))

/-- The error of a line that opens a block before others. -/
inductive Omission (project : ProjectId) (path : Path) (l : Line) (after : List Line) :
    Diagnostic → Prop
  | opening (hshape : l.shape = .opening) (hafter : ¬Closed after) :
      Omission project path l after
        (syntaxError project path l.number l.column unclosedOpening)

end Reading

/-!
# Blocks that are open
-/

/-- Lines that close no block from before leave those open that any lines before them do. -/
theorem unclosed_append {back : List Line} (h : surplus back = 0) (front : List Line) :
    unclosed (front ++ back) = unclosed front ++ unclosed back ∧
      surplus (front ++ back) = surplus front := by
  induction front with
  | nil => exact ⟨rfl, h⟩
  | cons l front ih =>
      rcases ih with ⟨hunclosed, hsurplus⟩
      rw [List.cons_append, unclosed, unclosed, surplus, surplus, hunclosed, hsurplus]
      refine ⟨?_, rfl⟩
      cases l.shape with
      | opening =>
          dsimp only
          split <;> rfl
      | _ => rfl

theorem opened_iff (before : List Line) : Opened before ↔ unclosed before ≠ [] := by
  constructor
  · rintro ⟨front, o, inner, rfl, hopening, hinner⟩
    rcases hinner.braces with ⟨hsurplus, -⟩
    have hback : surplus (o :: inner) = 0 := by
      rw [surplus_opening inner hopening, hsurplus]
    rw [(unclosed_append hback front).1, unclosed_opening inner hopening, if_pos hsurplus]
    simp
  · intro h
    induction before with
    | nil => exact (h rfl).elim
    | cons l ls ih =>
        by_cases hls : unclosed ls = []
        · by_cases hopening : l.shape = .opening
          · rw [unclosed_opening ls hopening] at h
            split at h
            · exact ⟨[], l, ls, rfl, hopening, nested_of_braces ls ‹_› hls⟩
            · exact (h hls).elim
          · rw [unclosed_item ls hopening] at h
            exact (h hls).elim
        · rcases ih hls with ⟨front, o, inner, rfl, hopening, hinner⟩
          exact ⟨l :: front, o, inner, rfl, hopening, hinner⟩

theorem closed_iff (after : List Line) : Closed after ↔ surplus after ≠ 0 := by
  constructor
  · rintro ⟨inner, c, rest, rfl, hclosing, hinner⟩
    rw [hinner.surplus_append, surplus_closing rest hclosing]
    exact Nat.succ_ne_zero _
  · intro h
    rcases Nat.exists_eq_succ_of_ne_zero h with ⟨n, hn⟩
    rcases exists_of_surplus after hn with ⟨inner, c, rest, hafter, hinner, hclosing, -⟩
    exact ⟨inner, c, rest, hafter, hclosing, hinner⟩

theorem foldl_depthAfter (depth : Nat) (ls : List Line) :
    ls.foldl Line.depthAfter depth = depth - surplus ls + (unclosed ls).length := by
  induction ls generalizing depth with
  | nil => rfl
  | cons l ls ih =>
      rw [List.foldl_cons, ih, surplus, unclosed, Line.depthAfter]
      cases l.shape with
      | opening =>
          dsimp only
          split
          · rw [List.length_cons]
            omega
          · omega
      | closing =>
          dsimp only
          omega
      | _ => rfl

theorem unclosed_sublist (ls : List Line) : (unclosed ls).Sublist ls := by
  induction ls with
  | nil => exact .slnil
  | cons l ls ih =>
      rw [unclosed]
      split
      · split
        · exact ih.cons_cons l
        · exact ih.cons l
      · exact ih.cons l

/-!
# Places in a list
-/

/-- A place in a list is its first, or one behind its first element. -/
theorem exists_place_cons {α : Type} (P : List α → α → List α → Prop) (x : α) (xs : List α) :
    (∃ before y after, x :: xs = before ++ y :: after ∧ P before y after) ↔
      P [] x xs ∨ ∃ before y after, xs = before ++ y :: after ∧ P (x :: before) y after := by
  constructor
  · rintro ⟨before, y, after, hsplit, h⟩
    cases before with
    | nil =>
        rcases List.cons.inj hsplit with ⟨rfl, rfl⟩
        exact .inl h
    | cons z before =>
        rcases List.cons.inj hsplit with ⟨rfl, rfl⟩
        exact .inr ⟨before, y, after, rfl, h⟩
  · rintro (h | ⟨before, y, after, rfl, h⟩)
    · exact ⟨[], x, xs, rfl, h⟩
    · exact ⟨x :: before, y, after, rfl, h⟩

namespace Reading

/-!
# The errors of lines
-/

def omission (project : ProjectId) (path : Path) (l : Line) : Diagnostic :=
  syntaxError project path l.number l.column unclosedOpening

/-- The error of a line where so many blocks are open. -/
def fault? (project : ProjectId) (path : Path) (depth : Nat) (l : Line) : Option Diagnostic :=
  match l.shape, depth with
  | .closing, 0 => some (syntaxError project path l.number l.column unexpectedClosing)
  | .other text, _ => some (syntaxError project path l.number l.column (unknownLine text))
  | _, _ => none

def faults (project : ProjectId) (path : Path) : Nat → List Line → List Diagnostic
  | _, [] => []
  | depth, l :: ls =>
      (fault? project path depth l).toList ++ faults project path (l.depthAfter depth) ls

section

variable (project : ProjectId) (path : Path)

theorem fault?_eq_some_iff (before : List Line) (l : Line) (e : Diagnostic) :
    fault? project path (before.foldl Line.depthAfter 0) l = some e ↔
      Fault project path before l e := by
  have hopened : Opened before ↔ before.foldl Line.depthAfter 0 ≠ 0 := by
    rw [opened_iff, foldl_depthAfter, Nat.zero_sub, Nat.zero_add, Ne, Ne,
      List.length_eq_zero_iff]
  constructor
  · intro h
    unfold fault? at h
    split at h
    · rename_i hshape hdepth
      cases h
      exact .closing hshape fun hbefore => hopened.mp hbefore hdepth
    · rename_i hshape
      cases h
      exact .unknown hshape
    · cases h
  · intro h
    cases h with
    | closing hshape hbefore =>
        have hdepth : before.foldl Line.depthAfter 0 = 0 :=
          not_not.mp fun hdepth => hbefore (hopened.mpr hdepth)
        simp [fault?, hshape, hdepth]
    | unknown hshape => simp [fault?, hshape]

theorem mem_faults (depth : Nat) (ls : List Line) (e : Diagnostic) :
    e ∈ faults project path depth ls ↔ ∃ before l after, ls = before ++ l :: after ∧
      fault? project path (before.foldl Line.depthAfter depth) l = some e := by
  induction ls generalizing depth with
  | nil => simp [faults]
  | cons l ls ih =>
      rw [exists_place_cons, faults, List.mem_append, ih, Option.mem_toList]
      rfl

theorem unknownLine_ne (text : String) : unknownLine text ≠ unclosedOpening := by
  have hhead {s : String} {c : Char} (h : s.toList.head? = some c) (t : String) :
      (s ++ t).toList.head? = some c := by
    rw [String.toList_append, List.head?_append, h]
    rfl
  have hfirst : (unknownLine text).toList.head? = some 'e' := hhead (hhead (by decide) text) _
  intro h
  rw [h] at hfirst
  exact absurd hfirst (by decide)

theorem line_of_fault? {depth : Nat} {l : Line} {e : Diagnostic}
    (h : fault? project path depth l = some e) :
    e.line = l.number ∧ e.message ≠ unclosedOpening := by
  unfold fault? at h
  split at h
  · cases h
    have hne : unexpectedClosing ≠ unclosedOpening := by decide
    exact ⟨rfl, hne⟩
  · cases h
    exact ⟨rfl, unknownLine_ne _⟩
  · cases h

theorem faults_sublist (depth : Nat) (ls : List Line) :
    ((faults project path depth ls).map Diagnostic.line).Sublist (ls.map Line.number) := by
  induction ls generalizing depth with
  | nil => exact .slnil
  | cons l ls ih =>
      rw [faults, List.map_append, List.map_cons]
      cases h : fault? project path depth l with
      | none => exact (ih _).cons _
      | some e =>
          have hline : e.line = l.number := (line_of_fault? project path h).1
          rw [Option.toList_some, List.map_singleton, hline]
          exact (ih _).cons_cons _

theorem omission_iff (l : Line) (after : List Line) (e : Diagnostic) :
    Omission project path l after e ↔
      l.shape = .opening ∧ surplus after = 0 ∧ e = omission project path l := by
  rw [← not_not (a := surplus after = 0), ← Ne, ← closed_iff]
  constructor
  · rintro ⟨hshape, hafter⟩
    exact ⟨hshape, hafter, rfl⟩
  · rintro ⟨hshape, hafter, rfl⟩
    exact ⟨hshape, hafter⟩

theorem mem_omissions (ls : List Line) (e : Diagnostic) :
    e ∈ (unclosed ls).map (omission project path) ↔ ∃ before l after,
      ls = before ++ l :: after ∧ Omission project path l after e := by
  induction ls with
  | nil => simp [unclosed]
  | cons l ls ih =>
      rw [exists_place_cons, ← ih, omission_iff]
      by_cases hopening : l.shape = .opening
      · rw [unclosed_opening ls hopening]
        by_cases hsurplus : surplus ls = 0 <;> simp [hopening, hsurplus]
      · rw [unclosed_item ls hopening]
        simp [hopening]

end

theorem blocks_foldl (project : ProjectId) (p : Progress) (ls : List Line) :
    (ls.foldl (step project) p).blocks =
      (unclosed ls).reverse.map (fun l => (l.number, l.column)) ++ p.blocks.drop (surplus ls) := by
  induction ls generalizing p with
  | nil => rfl
  | cons l ls ih =>
      rw [List.foldl_cons, ih]
      cases hshape : l.shape with
      | opening =>
          rw [surplus_opening ls hshape, unclosed_opening ls hshape]
          cases hsurplus : surplus ls with
          | zero => simp [step, hshape]
          | succ n => simp [step, hshape]
      | closing =>
          rw [surplus_closing ls hshape, unclosed_closing ls hshape]
          cases hblocks : p.blocks <;> simp [step, hshape, hblocks]
      | _ =>
          rw [surplus_item ls (by simp [hshape]) (by simp [hshape]),
            unclosed_item ls (by simp [hshape])]
          simp [step, hshape]

theorem faults_step (project : ProjectId) (p : Progress) (l : Line) :
    (step project p l).reading.syntaxErrors = p.reading.syntaxErrors ++
      (fault? project p.reading.path p.blocks.length l).toList := by
  unfold step fault?
  cases l.shape with
  | closing => cases p.blocks <;> simp
  | _ => simp

theorem faults_foldl (project : ProjectId) (p : Progress) (ls : List Line) :
    (ls.foldl (step project) p).reading.syntaxErrors =
      p.reading.syntaxErrors ++ faults project p.reading.path p.blocks.length ls := by
  induction ls generalizing p with
  | nil => simp [faults]
  | cons l ls ih =>
      rw [List.foldl_cons, ih, faults_step, (reading_step project p l).1, length_blocks_step,
        List.append_assoc, faults]

/-- How many statements, comments and errors there are. -/
def size (r : Reading) : Nat :=
  r.statements + r.comments.length + r.syntaxErrors.length

theorem size_step (project : ProjectId) (p : Progress) (l : Line) :
    (step project p l).reading.size = p.reading.size + if l.shape ≠ .blank then 1 else 0 := by
  unfold step size
  cases l.shape with
  | closing => cases p.blocks <;> simp [Nat.add_assoc, Nat.add_comm, Nat.add_left_comm]
  | _ => simp [Nat.add_assoc, Nat.add_comm, Nat.add_left_comm]

theorem size_foldl (project : ProjectId) (p : Progress) (ls : List Line) :
    (ls.foldl (step project) p).reading.size =
      p.reading.size + ls.countP fun l => l.shape ≠ .blank := by
  induction ls generalizing p with
  | nil => rfl
  | cons l ls ih =>
      rw [List.foldl_cons, ih, size_step, List.countP_cons, Nat.add_assoc]
      simp only [decide_eq_true_eq, Nat.add_comm]

/-!
# A document
-/

theorem reads_read (row : List Char × Nat) : Reads row (Line.read row.2 row.1) := by
  have hcore : Text.Trimmed (Text.trim row.1) := Text.trimmed_trim row.1
  refine ⟨rfl, rfl, (says_or_other hcore).imp_right ?_⟩
  intro hother
  refine ⟨fun s hs => ?_, hother⟩
  exact hs.isKnown _ ((hs.shapeOf_eq hcore).symm.trans hother)

theorem shape_read_eq_blank_iff (row : List Char × Nat) :
    (Line.read row.2 row.1).shape = .blank ↔ Text.trim row.1 = [] := by
  constructor
  · intro h
    rcases (reads_read row).shape with hsays | ⟨-, hother⟩
    · rw [h] at hsays
      generalize Text.trim row.1 = core at hsays
      cases hsays
      rfl
    · rw [h] at hother
      cases hother
  · intro h
    rw [Line.read, h]
    rfl

theorem pairwise_linesOf (content : String) :
    (linesOf content).Pairwise fun l l' => l.number < l'.number := by
  have hnumbers : (linesOf content).map Line.number =
      List.range' 1 (Text.lines content.toList).length := by
    rw [linesOf, List.map_map]
    exact List.zipIdx_map_snd 1 _
  rw [← List.pairwise_map, hnumbers]
  exact List.pairwise_lt_range'

theorem syntaxErrors_ofDocument (project : ProjectId) (d : Document) :
    (ofDocument project d).syntaxErrors = faults project d.path 0 (linesOf d.content) ++
      (unclosed (linesOf d.content)).map (omission project d.path) := by
  have hpath := (reading_foldl project (start d.path) (linesOf d.content)).1
  rw [ofDocument, finish, blocks_foldl, faults_foldl, hpath]
  simp [start, omission]

/-- All errors of a reading are made alike. -/
theorem exists_of_mem_syntaxErrors {project : ProjectId} {d : Document} {e : Diagnostic}
    (h : e ∈ (ofDocument project d).syntaxErrors) :
    ∃ line column message, e = syntaxError project d.path line column message := by
  rw [syntaxErrors_ofDocument] at h
  rcases List.mem_append.mp h with h | h
  · rcases (mem_faults project d.path 0 _ e).mp h with ⟨before, l, _, _, hfault⟩
    cases (fault?_eq_some_iff project d.path before l e).mp hfault with
    | closing => exact ⟨_, _, _, rfl⟩
    | unknown => exact ⟨_, _, _, rfl⟩
  · rcases List.mem_map.mp h with ⟨l, _, rfl⟩
    exact ⟨_, _, _, rfl⟩

theorem countP_syntaxErrors (project : ProjectId) (d : Document) :
    (ofDocument project d).syntaxErrors.countP (fun e => e.message ≠ unclosedOpening) =
      (faults project d.path 0 (linesOf d.content)).length := by
  have hfaults : ∀ e ∈ faults project d.path 0 (linesOf d.content),
      decide (e.message ≠ unclosedOpening) := by
    intro e he
    rcases (mem_faults project d.path 0 _ e).mp he with ⟨_, l, _, _, hfault⟩
    exact decide_eq_true (line_of_fault? project d.path hfault).2
  rw [syntaxErrors_ofDocument, List.countP_append, List.countP_eq_length.mpr hfaults,
    List.countP_map, List.countP_eq_zero.mpr, Nat.add_zero]
  intro l _
  simp [omission, syntaxError]

theorem countP_lines (content : String) :
    (Text.lines content.toList).countP (fun row => Text.trim row ≠ []) =
      (linesOf content).countP fun l => l.shape ≠ .blank := by
  rw [← List.zipIdx_map_fst 1 (Text.lines content.toList), List.countP_map, linesOf,
    List.countP_map]
  congr 1
  funext row
  simp [shape_read_eq_blank_iff]

/-- All rows of a document are accounted for. The errors are those of its lines, in order,
and then those of the blocks that are never closed, in order. A row that is not blank is a
statement, a comment or an error of its line. -/
theorem recovery_exact (project : ProjectId) (d : Document) :
    ∃ rows ls, Text.Lined d.content.toList rows ∧ List.Forall₂ Reads (rows.zipIdx 1) ls ∧
      (∃ faults omissions, (ofDocument project d).syntaxErrors = faults ++ omissions ∧
        faults.Pairwise (fun e e' => e.line < e'.line) ∧
        omissions.Pairwise (fun e e' => e.line < e'.line) ∧
        (∀ e, e ∈ faults ↔
          ∃ before l after, ls = before ++ l :: after ∧ Fault project d.path before l e) ∧
        ∀ e, e ∈ omissions ↔
          ∃ before l after, ls = before ++ l :: after ∧ Omission project d.path l after e) ∧
      rows.countP (fun row => Text.trim row ≠ []) =
        (ofDocument project d).statements + (ofDocument project d).comments.length +
          (ofDocument project d).syntaxErrors.countP (fun e => e.message ≠ unclosedOpening) := by
  refine ⟨Text.lines d.content.toList, linesOf d.content, Text.lined_lines _, ?_,
    ⟨_, _, syntaxErrors_ofDocument project d, ?_, ?_, ?_, ?_⟩, ?_⟩
  · rw [linesOf, List.forall₂_map_right_iff]
    exact List.forall₂_same.mpr fun row _ => reads_read row
  · rw [← List.pairwise_map]
    refine List.Pairwise.sublist (faults_sublist project d.path 0 _) ?_
    exact List.pairwise_map.mpr (pairwise_linesOf d.content)
  · rw [List.pairwise_map]
    exact (pairwise_linesOf d.content).sublist (unclosed_sublist _)
  · intro e
    rw [mem_faults]
    simp only [fault?_eq_some_iff]
  · exact mem_omissions project d.path _
  · -- Closing the reading adds errors, but neither statements nor comments.
    have hsize := size_foldl project (start d.path) (linesOf d.content)
    rw [size, faults_foldl] at hsize
    rw [countP_lines, countP_syntaxErrors]
    exact (hsize.trans (Nat.zero_add _)).symm

end Reading
end Outline
end Ripple
