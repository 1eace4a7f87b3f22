import Ripple.Proofs.Outline.Recovery
import Ripple.Proofs.Outline.Visibility

/-!
# Severities of an outline's diagnostics

How severe a diagnostic of an outline is follows from its rule and the options of its
project, whichever branch of the compiler or of the analyzers it comes from. Overrides
leave the options alone, so they never change the severity of a rule.
-/

namespace Ripple
namespace Outline

/-- How severe the findings of a rule are under the options. -/
def severityOf (options : Options) (rule : String) : Severity :=
  if rule = Module.duplicateRule then Module.duplicateSeverity options
  else if rule = Analyzer.todoRule then .info
  else if rule = Analyzer.emptyRule ∨ rule = Analyzer.namingRule then .warning
  else .error

/-- All of the diagnostics are as severe as their rules. -/
def Graded (options : Options) (ds : List Diagnostic) : Prop :=
  ∀ d ∈ ds, d.severity = severityOf options d.rule

/-!
# Lists of diagnostics
-/

variable {options : Options}

theorem Graded.append {ds ds' : List Diagnostic} (h : Graded options ds)
    (h' : Graded options ds') : Graded options (ds ++ ds') := by
  intro d hd
  rcases List.mem_append.mp hd with hd | hd
  · exact h d hd
  · exact h' d hd

theorem graded_flatMap {α : Type} {xs : List α} {f : α → List Diagnostic}
    (h : ∀ x ∈ xs, Graded options (f x)) : Graded options (xs.flatMap f) := by
  intro d hd
  rcases List.mem_flatMap.mp hd with ⟨x, hx, hd⟩
  exact h x hx d hd

/-- Findings of one rule are graded if the rule has their severity. -/
theorem graded_map {α : Type} {rule : String} {severity : Severity} {xs : List α}
    {f : α → Diagnostic} (hrule : severityOf options rule = severity)
    (h : ∀ x, (f x).rule = rule ∧ (f x).severity = severity) : Graded options (xs.map f) := by
  intro d hd
  rcases List.mem_map.mp hd with ⟨x, _, rfl⟩
  rw [(h x).1, (h x).2, hrule]

/-!
# The compiler
-/

theorem graded_syntaxErrors (project : ProjectId) (d : Document) :
    Graded options (Reading.ofDocument project d).syntaxErrors := by
  intro e he
  rcases Reading.exists_of_mem_syntaxErrors he with ⟨line, column, message, rfl⟩
  rfl

theorem graded_compile (u : CompileUnit Payload) :
    Graded u.options (Module.compile u).diagnostics := by
  refine .append (.append ?_ ?_) ?_
  · refine graded_flatMap fun r hr => ?_
    rcases List.mem_map.mp hr with ⟨d, _, rfl⟩
    exact graded_syntaxErrors u.project d
  · exact graded_map rfl fun o => ⟨rfl, rfl⟩
  · exact graded_map rfl fun o => ⟨rfl, rfl⟩

/-!
# The analyzers
-/

theorem Analyzer.graded_run (analyzer : Analyzer) (m : Module) :
    Graded options (analyzer.run m) := by
  cases analyzer with
  | emptyDocument =>
      refine graded_flatMap fun r _ => ?_
      unfold emptiness
      split
      · intro d hd
        rw [List.mem_singleton.mp hd]
        rfl
      · exact fun d hd => (List.not_mem_nil hd).elim
  | naming => exact graded_flatMap fun r _ => graded_map rfl fun o => ⟨rfl, rfl⟩
  | todoComment => exact graded_flatMap fun r _ => graded_map rfl fun c => ⟨rfl, rfl⟩

/-- A module is analyzed whatever the set, and what is collected is graded. -/
theorem exists_graded_collect {a : Artifact Payload} {m : Module} (ha : a.payload = .outline m)
    (h : Graded options m.diagnostics) (s : AnalyzerSet) (analyzed : Bool) :
    ∃ ds, Cache.Plan.collect backend a s analyzed = .ok ds ∧ Graded options ds := by
  cases a
  cases ha
  unfold Cache.Plan.collect
  split
  · refine ⟨_, rfl, h.append (graded_flatMap fun n _ => ?_)⟩
    unfold Analyzer.run?
    cases Analyzer.ofName? n with
    | none => exact fun d hd => (List.not_mem_nil hd).elim
    | some analyzer => exact analyzer.graded_run m
  · exact ⟨_, rfl, h⟩

/-!
# Projects
-/

open Cache in
/-- Every project of the graph is listed, with the severities of its own options. -/
theorem exists_graded_listing {ctx : Context} (hctx : ctx.Complete) {id : ProjectId}
    (hid : id ∈ ctx.graph.ids) (s : AnalyzerSet) (analyzed : Bool) :
    ∃ p ds, ctx.workspace.project? id = some p ∧
      uncachedListing ctx backend id s analyzed = .ok ds ∧ Graded p.options ds := by
  rcases Context.uncached_isOk (b := backend) hctx (fun u => ⟨_, rfl⟩) hid with ⟨a, ha⟩
  rcases Context.uncached_eq_ok_iff.mp ha with ⟨p, references, hp, _, hcompile⟩
  have hmodule : a.payload = .outline (Module.compile (.ofProject p references)) := by
    cases hcompile
    rfl
  rcases exists_graded_collect hmodule (graded_compile _) s analyzed with ⟨ds, hds, hgraded⟩
  have hlisting := uncachedListing_of_ok ha s analyzed
  rw [hds] at hlisting
  exact ⟨p, ds, hp, hlisting, hgraded⟩

open Cache in
/-- The severity of a rule is the same without overrides and with them. -/
theorem exists_steady_listings {ctx : Context} (hctx : ctx.Complete) {id : ProjectId}
    (hid : id ∈ ctx.graph.ids) (overrides : Overrides) (s : AnalyzerSet) (analyzed : Bool) :
    ∃ before after, uncachedListing ctx backend id s analyzed = .ok before ∧
      uncachedListing (ctx.override overrides) backend id s analyzed = .ok after ∧
      ∀ d ∈ before, ∀ d' ∈ after, d.rule = d'.rule → d.severity = d'.severity := by
  rcases exists_graded_listing hctx hid s analyzed with ⟨p, before, hp, hbefore, hgraded⟩
  rcases exists_graded_listing (hctx.override overrides) hid s analyzed with
    ⟨p', after, hp', hafter, hgraded'⟩
  have hsame : p' = p.override overrides := by
    rw [Context.override, Workspace.project?_override, hp] at hp'
    exact (Option.some.inj hp').symm
  have hoptions : p'.options = p.options := by
    rw [hsame]
    rfl
  refine ⟨before, after, hbefore, hafter, fun d hd d' hd' hrule => ?_⟩
  rw [hgraded d hd, hgraded' d' hd', hrule, hoptions]

end Outline
end Ripple
