import Ripple.Proofs.Diagnostic.Delta
import Ripple.Proofs.Engine.Impact
import Ripple.Proofs.Outline.Severity

/-!
# Errors that edits cause

Diagnostics are compared without regard to their severity. An outline's diagnostics with
one key are equally severe before and after edits, so no error that edits cause counts as
unchanged, and a project that comes to have errors has some that are introduced.
-/

namespace Ripple
namespace Engine

open Cache

/-- What the impact says of a project with these diagnostics before the edits and after. -/
structure Impact.Exposes (i : Impact) (before after : List Diagnostic) : Prop where
  delta : i.delta = .compute before after
  hasErrors : i.hasErrors = after.any Diagnostic.isError
  introduced : (∀ d ∈ before, ¬d.isError) → i.hasErrors → i.delta.introducesErrors
  unchanged : ∀ d ∈ i.delta.unchanged, d.isError →
    (∃ d' ∈ before, d'.key = d.key) ∧ ∀ d' ∈ before, d'.key = d.key → d'.isError

theorem exposes_compute {before after : List Diagnostic}
    (hsteady : ∀ d ∈ before, ∀ d' ∈ after, d.rule = d'.rule → d.severity = d'.severity)
    (p : ProjectId) :
    Impact.Exposes ⟨p, .compute before after, after.any Diagnostic.isError, none⟩ before after := by
  have hkeys : ∀ d ∈ before, ∀ d' ∈ after, d.key = d'.key → d.severity = d'.severity :=
    fun d hd d' hd' hkey => hsteady d hd d' hd' (Delta.key_eq_iff.mp hkey).left
  exact ⟨rfl, rfl, Delta.introducesErrors_of_any hkeys, fun d hd herror =>
    ⟨Delta.exists_partner hd, Delta.isError_of_unchanged hkeys hd herror⟩⟩

variable {σ : Type} {sv : Services σ Outline.Payload} {streams : Set (List UInt8)}
  {id : SessionId} {e : Engine σ Outline.Payload} {s : Session}

/-- The impacts of a batch compare what each project was found to have before the batch with
what it is found to have after it, and none of them fails. Whatever is an error after the
batch and counts as unchanged was an error before it, and a project without errors that comes
to have some has introduced some. -/
theorem errors_introduced (hbegins : Begins sv streams id e s)
    (houtline : sv.backend = Outline.backend) (edits : List DocumentEdit) :
    (edits ≠ [] → ∃ outcome e', (applyEdits sv id edits).Returns e outcome e') ∧
    ∀ outcome e', (applyEdits sv id edits).Returns e outcome e' →
      ∃ s', e'.sessions.get? id = some s' ∧ ∀ i ∈ outcome.impacts, i.error = none ∧
        ∃ before after e₁,
          (diagnostics sv id (some i.project) (some e.config.edits.includeAnalyzers)).Returns e
            ⟨[⟨i.project, before, none⟩]⟩ e₁ ∧
          e'.Previews sv s' s'.overrides e.config.edits.includeAnalyzers i.project after ∧
          i.Exposes before after := by
  have hready := hbegins.ready
  have hcompiles : ∀ u, ∃ a, sv.backend.compile u = .compiled a := by
    rw [houtline]
    exact fun u => ⟨_, rfl⟩
  by_cases hedits : edits = []
  · subst hedits
    refine ⟨fun h => (h rfl).elim, ?_⟩
    intro outcome e' hreturns
    cases hreturns
  · rcases hready.run_applyEdits hedits with
      ⟨e', hready', _, ⟨found, hreturns, hjudges⟩ | ⟨⟨p, _, hcrashes⟩, _⟩⟩
    · refine ⟨fun _ => ⟨_, e', hreturns⟩, ?_⟩
      intro outcome e'' hreturns'
      cases hreturns.symm.trans hreturns'
      refine ⟨_, hready'.session, fun i hi => ?_⟩
      rcases exists_of_forall₂ hjudges.flip hi with ⟨p, hp, hjudge⟩
      have hlisted : p ∈ (e.stagedIn s edits).2.graph.ids := by
        rw [hready.graph_stagedIn]
        exact (mem_affected.mp hp).left
      rcases Outline.exists_steady_listings hready'.complete hlisted
        (e.stagedIn s edits).2.overrides (e.stagedIn s edits).2.analyzers
        e.config.edits.includeAnalyzers with ⟨before, after, hbefore, hafter, hsteady⟩
      rw [← houtline] at hbefore hafter
      rcases hjudge.eq_of_listed hready'.toHosts hcompiles hlisted hbefore hafter with rfl
      -- The batch has left what the session is built from as it was.
      have hstaged := hready.staged_stagedIn edits
      rw [hstaged.context, hstaged.analyzers] at hbefore
      rcases hready.returns_listed hbefore with ⟨e₁, hdiagnostics⟩
      exact ⟨rfl, before, after, e₁, hdiagnostics, hready'.previews_listed hcompiles hlisted hafter,
        exposes_compute hsteady p⟩
    · exact (hcrashes.exists_fault hcompiles).elim

/-!
# An error of one line
-/

/-- A project with an empty document. -/
def emptyRows : List (String × String × String) :=
  [("a", "/s", "")]

def outlineServices : Services Unit Outline.Payload where
  store := calm.store
  backend := Outline.backend
  analyzers _ := .ok (.ofNames [])

def emptyEngine : Engine Unit Outline.Payload :=
  (Engine.new .default () true).setSession (singlesSession emptyRows)

def emptyStreams : List (List UInt8) :=
  Stream.ofNames [] ::
    emptyRows.map fun row => Stream.ofProject (single row) Outline.backend.environment []

theorem nodup_emptyStreams :
    (emptyStreams.map fun stream => (Fingerprint.ofStream stream).bytes).Nodup := by
  rw [Fingerprint.ofStream_eq]
  decide +kernel

theorem begins_empty : Begins outlineServices {stream | stream ∈ emptyStreams} ⟨"s"⟩ emptyEngine
    (singlesSession emptyRows) := by
  refine begins_new ⟨?_, ?_⟩ List.mem_cons_self fun other => ?_
  · exact fun stream hs other ho h =>
      List.inj_on_of_nodup_map nodup_emptyStreams hs ho (congrArg Fingerprint.bytes h)
  · unfold TextFits
    decide
  · refine covered_rows _ (by decide) (fun row hrow => ?_) (by decide +kernel) other
    exact List.mem_cons_of_mem _ (List.mem_map_of_mem hrow)

/-- Writes a use of a name that nothing defines. -/
def typingUse : DocumentEdit :=
  ⟨⟨"/s"⟩, [⟨⟨0, 0⟩, "use b\n"⟩]⟩

/-- For one, the use of an unknown name is an error that is introduced. -/
theorem errors_introduced_use : ∃ outcome e',
    (applyEdits outlineServices ⟨"s"⟩ [typingUse]).Returns emptyEngine outcome e' ∧
      outcome.hasErrors ∧
      ∀ i ∈ outcome.impacts, i.hasErrors → i.delta.introducesErrors := by
  rcases errors_introduced begins_empty rfl [typingUse] with ⟨hreturns, himpacts⟩
  rcases hreturns (List.cons_ne_nil typingUse []) with ⟨outcome, e', hreturns⟩
  have hfound : ((applyEdits outlineServices ⟨"s"⟩ [typingUse]).run emptyEngine).1.toOption.map
      (fun o => (o.hasErrors, o.impacts.map Impact.project)) = some (true, [⟨"a"⟩]) := by
    decide +kernel
  have hclean : ((diagnostics outlineServices ⟨"s"⟩ (some ⟨"a"⟩)
      (some emptyEngine.config.edits.includeAnalyzers)).run emptyEngine).1.toOption =
      some ⟨[⟨⟨"a"⟩, [], none⟩]⟩ := by
    decide +kernel
  rw [hreturns] at hfound
  rcases Prod.mk.inj (Option.some.inj hfound) with ⟨herrors, hprojects⟩
  refine ⟨outcome, e', hreturns, herrors, fun i hi => ?_⟩
  rcases himpacts outcome e' hreturns with ⟨s', _, hall⟩
  rcases hall i hi with ⟨_, before, after, e₁, hbefore, _, hexposes⟩
  have hproject : i.project = ⟨"a"⟩ := by
    have hmem := List.mem_map_of_mem (f := Impact.project) hi
    rw [hprojects] at hmem
    exact List.mem_singleton.mp hmem
  rw [hproject] at hbefore
  rw [hbefore] at hclean
  cases hclean
  exact hexposes.introduced fun d hd => (List.not_mem_nil hd).elim

end Engine
end Ripple
