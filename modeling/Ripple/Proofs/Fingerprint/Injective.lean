import Ripple.Proofs.Fingerprint.Delimited

/-!
# Streams of projects are told apart

The stream that a project's fingerprint is taken of determines everything that
is written into it, stops where no other stream of a project goes on, and is
never the stream of a set of analyzers.
-/

namespace Ripple
namespace Stream

/-- What is delimited and has nothing behind it stops in one place only. -/
theorem eq_of_isPrefix {write : α → List UInt8} {P : α → Prop} (hwrite : Delimited write P)
    {a c : α} (ha : P a) (hc : P c) (h : write a <+: write c) : a = c := by
  rcases h with ⟨rest, h⟩
  have hsplit : write a ++ rest = write c ++ [] := by
    rw [h, List.append_nil]
  exact (hwrite ha hc hsplit).left

/-- The domain alone tells two streams apart, whatever is written after it. -/
theorem ofParts_ne {domain domain' : String} (hfits : TextFits domain)
    (hfits' : TextFits domain') (hne : domain ≠ domain') (parts parts' : List StreamPart) :
    ofParts domain parts ≠ ofParts domain' parts' := by
  intro h
  exact hne (delimited_text hfits hfits' h).left

/-- Equal streams have been written from equal parts; no stream of a project is a
proper beginning of another; and none is the stream of a set of analyzers. -/
theorem ofProject_determines {p p' : Project} {environment environment' : String}
    {dependencies dependencies' : List (ProjectId × Fingerprint)}
    (hproject : p.Fits) (henvironment : TextFits environment)
    (hdependencies : ListFits (fun d => TextFits d.1.text) dependencies)
    (hproject' : p'.Fits) (henvironment' : TextFits environment')
    (hdependencies' : ListFits (fun d => TextFits d.1.text) dependencies') :
    (ofProject p environment dependencies = ofProject p' environment' dependencies' →
      p = p' ∧ environment = environment' ∧ dependencies = dependencies') ∧
    (ofProject p environment dependencies <+: ofProject p' environment' dependencies' →
      ofProject p environment dependencies = ofProject p' environment' dependencies') ∧
    ∀ names, ofProject p environment dependencies ≠ ofNames (AnalyzerSet.normalize names) := by
  have hparts : ofProject p environment dependencies <+: ofProject p' environment' dependencies' →
      (p, environment, dependencies) = (p', environment', dependencies') := by
    intro h
    have hinputs := And.intro hproject (And.intro henvironment hdependencies)
    have hinputs' := And.intro hproject' (And.intro henvironment' hdependencies')
    exact eq_of_isPrefix delimited_ofProject hinputs hinputs' h
  refine ⟨fun h => ?_, fun h => ?_, fun names => ?_⟩
  · simpa only [Prod.mk.injEq] using hparts (h ▸ List.prefix_rfl)
  · obtain ⟨rfl, rfl, rfl⟩ : p = p' ∧ environment = environment' ∧ dependencies = dependencies' := by
      simpa only [Prod.mk.injEq] using hparts h
    rfl
  · have htag : TextFits "project" ∧ TextFits "analyzer-set" := by
      unfold TextFits
      decide
    exact ofParts_ne htag.left htag.right (by decide) _ _

/-- A project with a single document. -/
def holding (path content : String) : Project :=
  ⟨⟨"a"⟩, "a", [⟨⟨path⟩, content⟩], [], [], .empty⟩

theorem fits_holding {path content : String} (hpath : TextFits path)
    (hcontent : TextFits content) : (holding path content).Fits := by
  have hname : TextFits "a" := by
    unfold TextFits
    decide
  have hempty : 0 < Number.wordLimit := by decide
  have hone : 1 < Number.wordLimit := by decide
  refine ⟨hname, hname, ⟨hempty, nofun⟩, ⟨hone, fun d hd => ?_⟩, ⟨hempty, nofun⟩, ⟨hempty, nofun⟩⟩
  rw [List.mem_singleton.mp hd]
  exact ⟨hpath, hcontent⟩

/-- A byte that moves from the content of a document to its path changes the stream. -/
theorem ofProject_determines_holding :
    ofProject (holding "/ab" "c") "e" [(⟨"d"⟩, default)] ≠
        ofProject (holding "/a" "bc") "e" [(⟨"d"⟩, default)] ∧
      ¬ ofProject (holding "/ab" "c") "e" [(⟨"d"⟩, default)] <+:
        ofProject (holding "/a" "bc") "e" [(⟨"d"⟩, default)] ∧
      ofProject (holding "/ab" "c") "e" [(⟨"d"⟩, default)] ≠
        ofNames (AnalyzerSet.normalize ["a", "b"]) := by
  have hshort : ∀ t ∈ ["/ab", "c", "/a", "bc", "e", "d"], TextFits t := by
    unfold TextFits
    decide
  have hdependencies : ListFits (fun d : ProjectId × Fingerprint => TextFits d.1.text)
      [(⟨"d"⟩, default)] := by
    refine ⟨by decide, fun d hd => ?_⟩
    rw [List.mem_singleton.mp hd]
    exact hshort "d" (by decide)
  rcases ofProject_determines
      (fits_holding (hshort "/ab" (by decide)) (hshort "c" (by decide))) (hshort "e" (by decide))
      hdependencies
      (fits_holding (hshort "/a" (by decide)) (hshort "bc" (by decide))) (hshort "e" (by decide))
      hdependencies with
    ⟨hdetermines, hstops, hanalyzers⟩
  have hunlike : holding "/ab" "c" ≠ holding "/a" "bc" := by decide
  have hne := fun h => hunlike (hdetermines h).left
  exact ⟨hne, fun h => hne (hstops h), hanalyzers _⟩

end Stream
end Ripple
