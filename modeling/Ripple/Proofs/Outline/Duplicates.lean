import Mathlib.Data.Finset.Card
import Ripple.Proofs.Outline.Severity
import Ripple.Proofs.Repetition

/-!
# Definitions of one name

Of the definitions of a name the first one counts, and each of the others is reported where
it stands. Which of them is the first is settled by the documents that have no error of
syntax, in their order and line by line: names from elsewhere have no part in it.
-/

namespace Ripple

/-- There are as many first members as there are keys. -/
theorem length_firstsBy {α κ : Type} [DecidableEq κ] (key : α → κ) (xs : List α) :
    (firstsBy key xs).length = (xs.map key).toFinset.card := by
  have hkeys : (xs.map key).toFinset = (xs.map key).eraseDups.toFinset := by
    ext k
    rw [List.mem_toFinset, List.mem_toFinset, List.mem_eraseDups]
  rw [hkeys, List.toFinset_card_of_nodup (Graph.nodup_eraseDups _), ← map_firstsBy,
    List.length_map]

namespace Outline

/-!
# Repeated definitions
-/

namespace Module

theorem repeated_concat (seen : List String) (os : List Occurrence) (o : Occurrence) :
    repeated seen (os ++ [o]) =
      repeated seen os ++ if o.name ∈ seen ∨ o.name ∈ os.map Occurrence.name then [o] else [] := by
  induction os generalizing seen with
  | nil =>
      by_cases ho : o.name ∈ seen <;> simp [repeated, ho]
  | cons first os ih =>
      rw [List.cons_append, repeated, repeated]
      by_cases hfirst : first.name ∈ seen
      · -- What the first one adds has been seen already.
        have hseen : (o.name ∈ seen ∨ o.name ∈ (first :: os).map Occurrence.name) ↔
            o.name ∈ seen ∨ o.name ∈ os.map Occurrence.name := by
          rw [List.map_cons, List.mem_cons]
          constructor
          · intro h
            rcases h with h | h | h
            · exact .inl h
            · exact .inl (h ▸ hfirst)
            · exact .inr h
          · exact Or.imp_right .inr
        rw [if_pos hfirst, if_pos hfirst, ih, if_congr hseen rfl rfl, List.cons_append]
      · have hseen : (o.name ∈ seen ∨ o.name ∈ (first :: os).map Occurrence.name) ↔
            o.name ∈ first.name :: seen ∨ o.name ∈ os.map Occurrence.name := by
          rw [List.map_cons, List.mem_cons, List.mem_cons, ← or_assoc, or_comm (a := o.name ∈ seen)]
        rw [if_neg hfirst, if_neg hfirst, ih, if_congr hseen rfl rfl]

theorem repeated_nil_eq (os : List Occurrence) :
    repeated [] os = repeatsBy Occurrence.name os := by
  induction os using List.reverseRecOn with
  | nil => rfl
  | append_singleton os o ih =>
      have hseen : (o.name ∈ ([] : List String) ∨ o.name ∈ os.map Occurrence.name) ↔
          o.name ∈ os.map Occurrence.name := by
        simp
      rw [repeated_concat, repeatsBy_concat, ih, if_congr hseen rfl rfl]

end Module

/-- The names from one document stand in the order of its lines. -/
theorem pairwise_occurrences (pick : LineShape → Option String) (d : Document) :
    (occurrences pick d).Pairwise fun o o' => o.line < o'.line := by
  have hline {l : Line} {o : Occurrence} (h : o ∈ l.occurrence? pick d.path) :
      o.line = l.number := by
    rcases Option.map_eq_some_iff.mp h with ⟨name, _, rfl⟩
    rfl
  refine List.Pairwise.filterMap _ ?_ (Reading.pairwise_linesOf d.content)
  intro l l' hlt o ho o' ho'
  rw [hline ho, hline ho']
  exact hlt

/-!
# What is listed
-/

/-- The documents of a unit that have no error of syntax. -/
def clean (u : CompileUnit Payload) : List Document :=
  u.sources.filter parses

/-- All that they define, document by document and line by line. -/
def definitions (u : CompileUnit Payload) : List Occurrence :=
  (clean u).flatMap (occurrences LineShape.defined?)

/-- The errors of syntax, document by document. -/
def syntaxErrors (u : CompileUnit Payload) : List Diagnostic :=
  u.sources.flatMap fun d => (Reading.ofDocument u.project d).syntaxErrors

/-- The definitions of names that are defined before, each reported where it stands. -/
def duplicates (u : CompileUnit Payload) : List Diagnostic :=
  (repeatsBy Occurrence.name (definitions u)).map
    (Module.report u.project Module.duplicateRule (Module.duplicateSeverity u.options)
      Module.duplicateMessage)

/-- The uses of names that are not visible, each reported where it stands. -/
def missing (u : CompileUnit Payload) (visible : List String) : List Diagnostic :=
  (((clean u).flatMap (occurrences LineShape.used?)).filter fun o => o.name ∉ visible).map
    (Module.report u.project Module.unresolvedRule .error Module.unresolvedMessage)

theorem flatMap_syntaxErrors (u : CompileUnit Payload) :
    (u.sources.map (Reading.ofDocument u.project)).flatMap Reading.syntaxErrors =
      syntaxErrors u :=
  List.flatMap_map _ _ _

theorem diagnostics_compile (u : CompileUnit Payload) :
    (Module.compile u).diagnostics =
      syntaxErrors u ++ duplicates u ++ missing u (Module.compile u).exports := by
  simp only [Module.compile, Module.unresolved, Module.repeated_nil_eq, filter_isClean_ofDocument,
    flatMap_definitions, flatMap_uses, flatMap_syntaxErrors, duplicates, missing, definitions,
    clean]

theorem filter_duplicates_compile (u : CompileUnit Payload) :
    (Module.compile u).diagnostics.filter (fun e => e.rule = Module.duplicateRule) =
      duplicates u := by
  have hsyntax : Reading.syntaxRule ≠ Module.duplicateRule := by decide
  have hunresolved : Module.unresolvedRule ≠ Module.duplicateRule := by decide
  rw [diagnostics_compile, List.filter_append, List.filter_append, ← flatMap_syntaxErrors,
    Module.filter_syntaxErrors_of_ne hsyntax, duplicates, Module.filter_report, missing,
    Module.filter_report_of_ne hunresolved, List.nil_append, List.append_nil]

/-- The module reports each definition of a name that is defined before. -/
structure ReportsDuplicates (u : CompileUnit Payload) (m : Module) : Prop where
  order : m.diagnostics = syntaxErrors u ++ duplicates u ++ missing u m.exports
  clean : ∀ d ∈ u.sources, d ∈ clean u ↔ (Reading.ofDocument u.project d).syntaxErrors = []
  lines : ∀ d, (occurrences LineShape.defined? d).Pairwise fun o o' => o.line < o'.line
  /-- Of each name all definitions are reported but one. -/
  count : m.diagnostics.countP (fun e => e.rule = Module.duplicateRule) +
    ((definitions u).map Occurrence.name).toFinset.card = (definitions u).length
  severity : ∀ e ∈ m.diagnostics, e.rule = Module.duplicateRule →
    e.severity = if u.options.get? "strict" = some "true" then .error else .warning
  /-- Names that come from elsewhere make no duplicates, and hide none. -/
  apart : ∀ references metadata a,
    backend.compile { u with references := references, metadata := metadata } = .compiled a →
    (backend.diagnostics a).filter (fun e => e.rule = Module.duplicateRule) =
      m.diagnostics.filter fun e => e.rule = Module.duplicateRule

theorem duplicates_reported (u : CompileUnit Payload) :
    ∃ a m, backend.compile u = .compiled a ∧ backend.diagnostics a = m.diagnostics ∧
      a.payload = .outline m ∧ ReportsDuplicates u m := by
  refine ⟨_, Module.compile u, rfl, rfl, rfl, ?_⟩
  constructor
  · exact diagnostics_compile u
  · intro d hd
    rw [Outline.clean, List.mem_filter, and_iff_right hd, ← Reading.isClean_ofDocument u.project,
      Reading.isClean, List.isEmpty_iff]
  · exact pairwise_occurrences LineShape.defined?
  · rw [List.countP_eq_length_filter, filter_duplicates_compile, duplicates, List.length_map,
      ← length_firstsBy, Nat.add_comm, length_firstsBy_add_length_repeatsBy]
  · intro e he hrule
    rw [graded_compile u e he, hrule]
    rfl
  · intro references metadata a ha
    cases ha
    show (Module.compile _).diagnostics.filter _ = _
    rw [filter_duplicates_compile, filter_duplicates_compile]
    rfl

end Outline
end Ripple
