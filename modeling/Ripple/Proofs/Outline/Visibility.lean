import Ripple.Outline.Analyzers
import Ripple.Proofs.Cache.Fidelity
import Ripple.Proofs.Outline.Reading

/-!
# What is visible in a workspace

A project sees what is offered by the projects that it needs, itself among them, and
nothing else: each project exports what it sees, so names come up along effective
dependencies, which have no cycle whatever the references are.
-/

namespace Ripple

theorem AnalyzerSet.mem_normalize {names : List String} {n : String} :
    n ∈ normalize names ↔ n ∈ names := by
  simp only [normalize, List.mem_eraseDups, List.mem_mergeSort]

namespace Outline

/-!
# One project
-/

/-- The documents that have no error of syntax. -/
def parsing (p : Project) : List Document :=
  p.documents.filter parses

/-- What the project offers by itself. -/
def Offers (p : Project) (n : String) : Prop :=
  n ∈ p.metadata ∨ ∃ o ∈ (parsing p).flatMap (occurrences LineShape.defined?), o.name = n

instance (p : Project) (n : String) : Decidable (Offers p n) :=
  inferInstanceAs (Decidable (_ ∨ _))

/-- What is used in the project, document by document and line by line. -/
def usages (p : Project) : List Occurrence :=
  (parsing p).flatMap (occurrences LineShape.used?)

/-- The diagnostics report the uses of names that are not visible, each where it stands and
in the order of documents and lines, and no others. -/
def Reports (p : Project) (visible : List String) (ds : List Diagnostic) : Prop :=
  ds.filter (fun d => d.rule = Module.unresolvedRule) =
    ((usages p).filter fun o => o.name ∉ visible).map
      (Module.report p.id Module.unresolvedRule .error Module.unresolvedMessage)

theorem filter_isClean_ofDocument (id : ProjectId) (ds : List Document) :
    (ds.map (Reading.ofDocument id)).filter Reading.isClean =
      (ds.filter parses).map (Reading.ofDocument id) := by
  rw [List.filter_map]
  congr 2
  funext d
  exact Reading.isClean_ofDocument id d

theorem flatMap_definitions (id : ProjectId) (ds : List Document) :
    (ds.map (Reading.ofDocument id)).flatMap Reading.definitions =
      ds.flatMap (occurrences LineShape.defined?) := by
  rw [List.flatMap_map]
  congr 1
  funext d
  exact Reading.definitions_ofDocument id d

theorem flatMap_uses (id : ProjectId) (ds : List Document) :
    (ds.map (Reading.ofDocument id)).flatMap Reading.uses =
      ds.flatMap (occurrences LineShape.used?) := by
  rw [List.flatMap_map]
  congr 1
  funext d
  exact Reading.uses_ofDocument id d

namespace Module

theorem mem_exports_compile {p : Project} {references : List (Artifact Payload)} {n : String} :
    n ∈ (compile (.ofProject p references)).exports ↔
      Offers p n ∨ ∃ a ∈ references, n ∈ a.payload.exports := by
  simp only [compile, CompileUnit.ofProject, AnalyzerSet.mem_normalize, List.mem_append,
    List.mem_flatMap, List.mem_map, filter_isClean_ofDocument, flatMap_definitions, Offers,
    parsing]
  exact or_right_comm

/-!
# Diagnostics of one rule
-/

section

variable {rule rule' : String}

theorem filter_report (project : ProjectId) (severity : Severity) (message : String → String)
    (os : List Occurrence) :
    (os.map (report project rule severity message)).filter (fun d => d.rule = rule) =
      os.map (report project rule severity message) := by
  rw [List.filter_eq_self]
  intro e he
  rcases List.mem_map.mp he with ⟨o, _, rfl⟩
  exact decide_eq_true rfl

theorem filter_report_of_ne (hne : rule ≠ rule') (project : ProjectId) (severity : Severity)
    (message : String → String) (os : List Occurrence) :
    (os.map (report project rule severity message)).filter (fun d => d.rule = rule') = [] := by
  rw [List.filter_eq_nil_iff]
  intro e he
  rcases List.mem_map.mp he with ⟨o, _, rfl⟩
  exact fun h => hne (of_decide_eq_true h)

theorem filter_syntaxErrors_of_ne (hne : Reading.syntaxRule ≠ rule) (project : ProjectId)
    (ds : List Document) :
    ((ds.map (Reading.ofDocument project)).flatMap Reading.syntaxErrors).filter
      (fun d => d.rule = rule) = [] := by
  rw [List.filter_eq_nil_iff]
  intro e he
  rcases List.mem_flatMap.mp he with ⟨r, hr, he⟩
  rcases List.mem_map.mp hr with ⟨d, _, rfl⟩
  rw [Reading.rule_of_mem_syntaxErrors he]
  exact fun h => hne (of_decide_eq_true h)

end

/-- The uses that the module does not see are reported, each at its place. -/
theorem reports_compile (p : Project) (references : List (Artifact Payload)) :
    Reports p (compile (.ofProject p references)).exports
      (compile (.ofProject p references)).diagnostics := by
  have hsyntax : Reading.syntaxRule ≠ unresolvedRule := by decide
  have hduplicate : duplicateRule ≠ unresolvedRule := by decide
  simp only [Reports, compile, CompileUnit.ofProject, List.filter_append, filter_isClean_ofDocument,
    flatMap_uses, usages, parsing, unresolved]
  rw [filter_syntaxErrors_of_ne hsyntax, filter_report_of_ne hduplicate, filter_report,
    List.nil_append, List.nil_append]

end Module

/-!
# The projects that a project needs
-/

/-- The name is offered by the project or by one that it needs. -/
def Visible (ws : Workspace) (id : ProjectId) (n : String) : Prop :=
  ∃ c p, (Graph.build ws).Needs id c ∧ ws.project? c = some p ∧ Offers p n

theorem mem_exports_iff_visible {session : SessionId} {ws : Workspace} {id : ProjectId}
    {a : Artifact Payload} (ha : (Context.ofWorkspace session ws).uncached backend id = .ok a)
    (n : String) : n ∈ a.payload.exports ↔ Visible ws id n := by
  induction id using (Graph.build ws).effective_induction generalizing a with
  | step id ih =>
      rcases Context.uncached_eq_ok_iff.mp ha with ⟨p, references, hp, hall, hcompile⟩
      cases hcompile
      show n ∈ (Module.compile (.ofProject p references)).exports ↔ _
      rw [Module.mem_exports_compile]
      constructor
      · rintro (hown | ⟨a, ha, hn⟩)
        · exact ⟨id, p, .refl, hp, hown⟩
        · rcases (Context.mem_of_uncachedAll hall).mp ha with ⟨c, hc, hac⟩
          rcases (ih c hc hac).mp hn with ⟨d, q, hneeds, hq, hoffers⟩
          exact ⟨d, q, .head hc hneeds, hq, hoffers⟩
      · rintro ⟨d, q, hneeds, hq, hoffers⟩
        rcases Relation.ReflTransGen.cases_head hneeds with rfl | ⟨c, hc, hbelow⟩
        · have hsame := hp.symm.trans hq
          cases hsame
          exact .inl hoffers
        · rcases Context.exists_uncachedAll_iff.mp ⟨references, hall⟩ c hc with ⟨a, hac⟩
          have ha : a ∈ references := (Context.mem_of_uncachedAll hall).mpr ⟨c, hc, hac⟩
          exact .inr ⟨a, ha, (ih c hc hac).mpr ⟨d, q, hbelow, hq, hoffers⟩⟩

/-- Every project of the graph comes to a module that exports what is visible and reports
what is used without being visible. -/
theorem exists_module (session : SessionId) {ws : Workspace} {id : ProjectId}
    (hid : id ∈ (Graph.build ws).ids) :
    ∃ p m, ws.project? id = some p ∧
      (Context.ofWorkspace session ws).uncached backend id = .ok ⟨id, .outline m⟩ ∧
      (∀ n, n ∈ m.exports ↔ Visible ws id n) ∧ Reports p m.exports m.diagnostics := by
  rcases Context.uncached_isOk (b := backend) (Context.complete_ofWorkspace session ws)
      (fun u => ⟨_, rfl⟩) hid with ⟨a, ha⟩
  rcases Context.uncached_eq_ok_iff.mp ha with ⟨p, references, hp, _, hcompile⟩
  cases hcompile
  have hexports := mem_exports_iff_visible ha
  have hproject : p.id = id := (Context.project?_mem hp).right
  subst hproject
  exact ⟨p, _, hp, ha, hexports, Module.reports_compile p references⟩

/-!
# Analyzers
-/

/-- No analyzer resolves names. -/
theorem Analyzer.rule_of_mem_run {analyzer : Analyzer} {m : Module} {e : Diagnostic}
    (h : e ∈ analyzer.run m) : e.rule ≠ Module.unresolvedRule := by
  cases analyzer with
  | emptyDocument =>
      rcases List.mem_flatMap.mp h with ⟨r, _, he⟩
      unfold emptiness at he
      split at he
      · rw [List.mem_singleton.mp he]
        show emptyRule ≠ Module.unresolvedRule
        decide
      · cases he
  | naming =>
      rcases List.mem_flatMap.mp h with ⟨r, _, he⟩
      rcases List.mem_map.mp he with ⟨o, _, rfl⟩
      show namingRule ≠ Module.unresolvedRule
      decide
  | todoComment =>
      rcases List.mem_flatMap.mp h with ⟨r, _, he⟩
      rcases List.mem_map.mp he with ⟨c, _, rfl⟩
      show todoRule ≠ Module.unresolvedRule
      decide

/-- Whatever analyzers are run, the module's own reports of names stay as they are. -/
theorem exists_collect (id : ProjectId) (m : Module) (s : AnalyzerSet) (analyzed : Bool) :
    ∃ ds, Cache.Plan.collect backend ⟨id, .outline m⟩ s analyzed = .ok ds ∧
      ds.filter (fun d => d.rule = Module.unresolvedRule) =
        m.diagnostics.filter fun d => d.rule = Module.unresolvedRule := by
  have hfound : ((s.names.flatMap fun n => (Analyzer.run? n m).getD []).filter
      fun d => d.rule = Module.unresolvedRule) = [] := by
    rw [List.filter_eq_nil_iff]
    intro e he
    rcases List.mem_flatMap.mp he with ⟨n, _, he⟩
    unfold Analyzer.run? at he
    cases hname : Analyzer.ofName? n with
    | none =>
        rw [hname] at he
        cases he
    | some analyzer =>
        rw [hname] at he
        have hrule := Analyzer.rule_of_mem_run he
        simpa using hrule
  unfold Cache.Plan.collect
  split
  · refine ⟨m.diagnostics ++ _, rfl, ?_⟩
    rw [List.filter_append, hfound, List.append_nil]
  · exact ⟨m.diagnostics, rfl, rfl⟩

/-!
# Through the cache
-/

open Cache in
/-- Whatever the cache has been through, the artifact of a project exports what the project
and those that it needs offer, and its diagnostics are about the uses that are not among
these. -/
theorem names_resolved {ws : Workspace} {id : ProjectId} (hid : id ∈ (Graph.build ws).ids) :
    ∃ p m, ws.project? id = some p ∧ (∀ n, n ∈ m.exports ↔ Visible ws id n) ∧
      Reports p m.exports m.diagnostics ∧
      ∀ {allowed settings} {w : World Payload}, w.Attained {backend} allowed settings →
        w.Steady ∨ w.Distinct {backend} → ∀ c ∈ w.clients, ∀ session,
          (c.call = .artifact (.ofWorkspace session ws) id →
            w.Serves backend c fun reply =>
              reply = .ok (.artifact ⟨id, .outline m⟩)) ∧
          ∀ names analyzed,
            c.call = .diagnostics (.ofWorkspace session ws) id names analyzed →
              w.Serves backend c fun reply =>
                ∃ ds, reply = .ok (.listing ds) ∧ Reports p m.exports ds := by
  rcases exists_module ⟨""⟩ hid with ⟨p, m, hp, ha, hexports, hreports⟩
  refine ⟨p, m, hp, hexports, hreports, ?_⟩
  intro allowed settings w hattained htold c hc session
  have hun : w.Unambiguous backend := by
    rcases htold with hsteady | hdistinct
    · exact hsteady.unambiguous
    · exact hdistinct.unambiguous
  have hserves (hcall : c.call.IsFor (.ofWorkspace session ws) id) :
      w.Serves backend c fun reply => c.call.Replies {backend} ⟨id, .outline m⟩ reply :=
    World.serves_of_unambiguous hattained hun hc hcall ha
  constructor
  · intro hcall
    rw [hcall] at hserves
    exact hserves ⟨rfl, rfl⟩
  · intro names analyzed hcall
    rw [hcall] at hserves
    refine (hserves ⟨rfl, rfl⟩).imp ?_
    rintro reply ⟨result, ⟨b, hb, names', _, rfl⟩, rfl⟩
    cases Set.mem_singleton_iff.mp hb
    rcases exists_collect id m (.ofNames names') analyzed with ⟨ds, hds, hsame⟩
    rw [hds]
    exact ⟨ds, rfl, hsame.trans hreports⟩

/-- An application of a library that is in a cycle with another one. -/
def cyclicWorkspace : Workspace :=
  ⟨⟨"/"⟩,
    [⟨⟨"app"⟩, "app", [⟨⟨"/app.arb"⟩, "use helper\nuse deep\n"⟩], [⟨"lib"⟩], [], ⟨[]⟩⟩,
      ⟨⟨"lib"⟩, "lib", [⟨⟨"/lib.arb"⟩, "def helper\n"⟩], [⟨"base"⟩], [], ⟨[]⟩⟩,
      ⟨⟨"base"⟩, "base", [⟨⟨"/base.arb"⟩, "def deep\n"⟩], [⟨"lib"⟩], [], ⟨[]⟩⟩]⟩

theorem needs_cyclic {c : ProjectId} (h : (Graph.build cyclicWorkspace).Needs ⟨"app"⟩ c) :
    c = ⟨"app"⟩ ∨ c = ⟨"lib"⟩ := by
  have happ : (Graph.build cyclicWorkspace).effectiveDependencies ⟨"app"⟩ = [⟨"lib"⟩] := by
    decide +kernel
  have hlib : (Graph.build cyclicWorkspace).effectiveDependencies ⟨"lib"⟩ = [] := by
    decide +kernel
  induction h with
  | refl => exact .inl rfl
  | tail _ hc ih =>
      rcases ih with rfl | rfl
      · rw [happ] at hc
        exact .inr (List.mem_singleton.mp hc)
      · rw [hlib] at hc
        cases hc

open Cache in
/-- For one, an application finds a name of its library, but no name of what the library is
in a cycle with. -/
theorem names_resolved_cyclic : ∃ (w : World Payload) (m : Module),
    w.Attained {backend} Set.univ .default ∧
      w.clients = [⟨.artifact (.ofWorkspace ⟨"s"⟩ cyclicWorkspace) ⟨"app"⟩,
        .returned (.ok (.artifact ⟨⟨"app"⟩, .outline m⟩))⟩] ∧
      "helper" ∈ m.exports ∧ "deep" ∉ m.exports ∧
      m.diagnostics.filter (fun d => d.rule = Module.unresolvedRule) =
        [Module.report ⟨"app"⟩ Module.unresolvedRule .error Module.unresolvedMessage
          ⟨"deep", ⟨"/app.arb"⟩, 2, 1⟩] := by
  have hid : ⟨"app"⟩ ∈ (Graph.build cyclicWorkspace).ids := by decide +kernel
  rcases names_resolved hid with ⟨p, m, hp, hexports, hreports, hserved⟩
  rcases World.exists_asksOnce backend Set.univ .default
      (.ofWorkspace ⟨"s"⟩ cyclicWorkspace) ⟨"app"⟩ with ⟨w, hattained, honce, hfinished⟩
  rcases honce.client with ⟨stage, hclients, hasks⟩
  have hc : ⟨.artifact (.ofWorkspace ⟨"s"⟩ cyclicWorkspace) ⟨"app"⟩, stage⟩ ∈ w.clients := by
    rw [hclients]
    exact List.mem_singleton_self _
  have hserves := (hserved hattained (.inl honce.steady) _ hc ⟨"s"⟩).left rfl
  have hout : stage.isOut := by
    by_contra hin
    exact hfinished (.client hc hin)
  have hhelper : "helper" ∈ m.exports := by
    have hneeds : (Graph.build cyclicWorkspace).Needs ⟨"app"⟩ ⟨"lib"⟩ :=
      .single (by decide +kernel)
    exact (hexports "helper").mpr ⟨_, _, hneeds, rfl, by decide +kernel⟩
  have hdeep : "deep" ∉ m.exports := by
    intro hdeep
    rcases (hexports "deep").mp hdeep with ⟨c, q, hneeds, hq, hoffers⟩
    rcases needs_cyclic hneeds with rfl | rfl
    · cases hq
      exact absurd hoffers (by decide +kernel)
    · cases hq
      exact absurd hoffers (by decide +kernel)
  have husages : usages p = [⟨"helper", ⟨"/app.arb"⟩, 1, 1⟩, ⟨"deep", ⟨"/app.arb"⟩, 2, 1⟩] := by
    cases hp
    decide +kernel
  refine ⟨w, m, hattained, ?_, hhelper, hdeep, ?_⟩
  · cases stage with
    | returned reply => rw [hclients, hserves.agrees reply rfl]
    | panicked => exact absurd rfl hserves.unharmed
    | cancelled => exact hasks.elim
    | _ => cases hout
  · cases hp
    rw [Reports, husages] at hreports
    rw [hreports]
    simp [hhelper, hdeep]

end Outline
end Ripple
