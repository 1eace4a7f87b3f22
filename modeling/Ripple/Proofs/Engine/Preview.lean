import Ripple.Proofs.Digest.Numbers
import Ripple.Proofs.Engine.Commit

/-!
# Previews and commits

A preview gives the pending texts to all documents at their paths. A commit gives
each text to the first document of the workspace at its path. Projects whose
documents come first at their paths have the diagnostics that were previewed, and
unless the backend cannot tell the difference no others have.
-/

namespace Ripple

open Cache

variable {σ π : Type}

/-!
# Telling sources apart
-/

/-- Artifacts with the same diagnostics have been compiled from the same sources. -/
def Backend.Tells (b : Backend π) : Prop :=
  ∀ u u' a a', b.compile u = .compiled a → b.compile u' = .compiled a' →
    b.diagnostics a = b.diagnostics a' → u.sources = u'.sources

theorem exists_compiled {b : Backend π} {ctx : Context} {id : ProjectId} {p : Project}
    {set : AnalyzerSet} {ds : List Diagnostic} (hp : ctx.workspace.project? id = some p)
    (hds : uncachedListing ctx b id set false = .ok ds) :
    ∃ u a, u.sources = p.documents ∧ b.compile u = .compiled a ∧ b.diagnostics a = ds := by
  unfold uncachedListing at hds
  cases ha : ctx.uncached b id with
  | error es => simp [ha] at hds
  | ok a =>
      rcases Context.uncached_eq_ok_iff.mp ha with ⟨p', references, hp', _, hcompile⟩
      rw [hp] at hp'
      cases hp'
      refine ⟨_, a, rfl, hcompile, ?_⟩
      simpa [ha, Plan.collect] using hds

theorem Backend.Tells.documents_eq {b : Backend π} (htells : b.Tells) {ctx ctx' : Context}
    {id : ProjectId} {p p' : Project} {set set' : AnalyzerSet} {ds : List Diagnostic}
    (hp : ctx.workspace.project? id = some p) (hp' : ctx'.workspace.project? id = some p')
    (hds : uncachedListing ctx b id set false = .ok ds)
    (hds' : uncachedListing ctx' b id set' false = .ok ds) : p.documents = p'.documents := by
  rcases exists_compiled hp hds with ⟨u, a, hu, ha, heq⟩
  rcases exists_compiled hp' hds' with ⟨u', a', hu', ha', heq'⟩
  rw [← hu, ← hu']
  exact htells u u' a a' ha ha' (heq.trans heq'.symm)

/-!
# The two ways of giving texts to documents
-/

namespace Context

def putTexts (ctx : Context) (texts : Path → Option String) : Context :=
  { ctx with workspace := ctx.workspace.putTexts texts }

/-- Where all documents come first at their paths, the two ways build the same. -/
theorem uncached_putTexts {b : Backend π} {ctx : Context} {overrides : Overrides}
    (hfirsts : ctx.workspace.FirstsOnly ctx.graph.ids overrides.get?) {id : ProjectId}
    (hid : id ∈ ctx.graph.ids) :
    (ctx.putTexts overrides.get?).uncached b id = (ctx.override overrides).uncached b id := by
  have hgraph : (ctx.putTexts overrides.get?).graph = (ctx.override overrides).graph := rfl
  refine fold_congr (P := fun id => id ∈ ctx.graph.ids) hgraph
    (fun _ hc => Graph.mem_ids_of_effective hc) (fun id hid => ?_) _ hid
  rw [override, Workspace.project?_override]
  exact (Workspace.project?_putTexts_iff ctx.workspace ctx.graph.ids).mpr hfirsts id hid

theorem uncachedListing_putTexts {b : Backend π} {ctx : Context} {overrides : Overrides}
    (hfirsts : ctx.workspace.FirstsOnly ctx.graph.ids overrides.get?) {id : ProjectId}
    (hid : id ∈ ctx.graph.ids) (set : AnalyzerSet) (analyzed : Bool) :
    uncachedListing (ctx.putTexts overrides.get?) b id set analyzed =
      uncachedListing (ctx.override overrides) b id set analyzed := by
  rw [uncachedListing, uncached_putTexts hfirsts hid, uncachedListing]

/-- If the two ways list the same for all projects, and the backend tells sources
apart, then all documents come first at their paths. -/
theorem firstsOnly_of_uncachedListing {b : Backend π} (htells : b.Tells) {ctx : Context}
    (hcomplete : ctx.Complete) {overrides : Overrides} (set : AnalyzerSet)
    (h : ∀ id ∈ ctx.graph.ids, ∃ ds,
      uncachedListing (ctx.putTexts overrides.get?) b id set false = .ok ds ∧
      uncachedListing (ctx.override overrides) b id set false = .ok ds) :
    ctx.workspace.FirstsOnly ctx.graph.ids overrides.get? := by
  refine (Workspace.project?_putTexts_iff ctx.workspace ctx.graph.ids).mp fun id hid => ?_
  rcases h id hid with ⟨ds, hds, hds'⟩
  rcases hcomplete id hid with ⟨p, hp⟩
  rcases Workspace.exists_project?_putTexts hp overrides.get? with ⟨documents, hput⟩
  have hover : (ctx.override overrides).workspace.project? id =
      some (p.override overrides) := by
    rw [override, Workspace.project?_override, hp]
    rfl
  have hsame : documents = (p.override overrides).documents :=
    htells.documents_eq hput hover hds hds'
  rw [hput, hp, hsame]
  rfl

end Context

/-- With absolute paths, committing the pending texts is giving them in one pass. -/
theorem Session.Formed.commitAll_eq {s : Session} (h : s.Formed)
    (habsolute : ∀ d ∈ s.workspace.documents, d.path.isAbsolute) :
    s.workspace.commitAll s.pendingEdits = s.workspace.putTexts s.overrides.get? := by
  have hedits : ∀ edit ∈ s.pendingEdits, edit.path.isAbsolute := by
    intro edit hedit
    rcases h.paths edit hedit with ⟨d, hd, hpath⟩
    exact hpath ▸ habsolute d hd
  rw [Workspace.commitAll_eq hedits, funext h.lastText_eq]

namespace Engine

variable {sv : Services σ π} {streams : Set (List UInt8)} {id : SessionId}
  {e e₁ e₂ : Engine σ π} {s s₁ s₂ : Session} {report : CommitReport}

/-!
# A session before and after its commit
-/

theorem Previews.unique {overrides : Overrides} {analyzed : Bool} {p : ProjectId}
    {ds ds' : List Diagnostic} (h : e.Previews sv s overrides analyzed p ds)
    (h' : e.Previews sv s overrides analyzed p ds') : ds' = ds := by
  rcases h with ⟨_, hdrive⟩
  rcases h' with ⟨_, hdrive'⟩
  cases hdrive.symm.trans hdrive'
  rfl

theorem diagnostics_unique {p : ProjectId} {analyzed : Bool} {ds ds' : List Diagnostic}
    {e' e'' : Engine σ π}
    (h : (diagnostics sv id (some p) (some analyzed)).Returns e ⟨[⟨p, ds, none⟩]⟩ e')
    (h' : (diagnostics sv id (some p) (some analyzed)).Returns e ⟨[⟨p, ds', none⟩]⟩ e'') :
    ds' = ds := by
  cases h.symm.trans h'
  rfl

structure Commits (sv : Services σ π) (streams : Set (List UInt8)) (id : SessionId)
    (e₁ : Engine σ π) (s₁ : Session) (e₂ : Engine σ π) (s₂ : Session) : Prop where
  before : Ready sv streams id e₁ s₁
  after : Ready sv streams id e₂ s₂
  context : s₂.context = s₁.context.putTexts s₁.overrides.get?
  analyzers : s₂.analyzers = s₁.analyzers

/-- Batches and a commit without failures fold all pending texts in. -/
theorem Begins.commits (h : Begins sv streams id e s) (hfaultless : sv.backend.Faultless)
    (habsolute : ∀ d ∈ s.workspace.documents, d.path.isAbsolute)
    (batches : List (List DocumentEdit))
    (hstaged : (applyAll sv id e batches).sessions.get? id = some s₁)
    (hcommit : (commit sv id).Returns (applyAll sv id e batches) report e₂)
    (hwritten : report.failed = []) (hcommitted : e₂.sessions.get? id = some s₂)
    (hcovered : ∀ other, s₂.context.Covered sv.backend.environment streams other) :
    Commits sv streams id (applyAll sv id e batches) s₁ e₂ s₂ := by
  rcases h.ready.applyAll hfaultless batches with ⟨s', hready, hsame⟩
  cases hready.session.symm.trans hstaged
  rcases hready.toHosts.of_returns_commit hcommit hwritten with ⟨s', hhosts, halike, hworkspace⟩
  cases hhosts.session.symm.trans hcommitted
  have hstart : s₁.workspace = s.workspace := congrArg Context.workspace hsame.context
  rw [hready.formed.commitAll_eq (hstart ▸ habsolute)] at hworkspace
  refine ⟨hready, ⟨hhosts, hready.free, halike.analyzers ▸ hready.named, hcovered⟩, ?_,
    halike.analyzers⟩
  rw [Session.context, halike.id, halike.graph, hworkspace]
  rfl

/-- After the commit a project has the diagnostics that were previewed before. -/
def Keeps (sv : Services σ π) (id : SessionId) (e₁ : Engine σ π) (s₁ : Session)
    (e₂ : Engine σ π) (analyzed : Bool) (p : ProjectId) : Prop :=
  ∃ ds e₃, e₁.Previews sv s₁ s₁.overrides analyzed p ds ∧
    (diagnostics sv id (some p) (some analyzed)).Returns e₂ ⟨[⟨p, ds, none⟩]⟩ e₃

theorem Commits.keeps (h : Commits sv streams id e₁ s₁ e₂ s₂)
    (hfaultless : sv.backend.Faultless)
    (hfirsts : s₁.workspace.FirstsOnly s₁.graph.ids s₁.overrides.get?) {p : ProjectId}
    (hp : p ∈ s₁.graph.ids) (analyzed : Bool) : Keeps sv id e₁ s₁ e₂ analyzed p := by
  rcases h.before.previews hfaultless hp s₁.overrides analyzed with ⟨ds, hpreviews, hds⟩
  have hgraph : s₂.graph = s₁.graph := congrArg Context.graph h.context
  rcases h.after.returns_diagnostics hfaultless (hgraph.symm ▸ hp) analyzed with
    ⟨ds', e₃, hreturns, hds'⟩
  rw [h.context, h.analyzers, Context.uncachedListing_putTexts hfirsts hp, hds] at hds'
  cases hds'
  exact ⟨ds, e₃, hpreviews, hreturns⟩

theorem Commits.firstsOnly (h : Commits sv streams id e₁ s₁ e₂ s₂)
    (hfaultless : sv.backend.Faultless) (htells : sv.backend.Tells)
    (hkeeps : ∀ p ∈ s₁.graph.ids, Keeps sv id e₁ s₁ e₂ false p) :
    s₁.workspace.FirstsOnly s₁.graph.ids s₁.overrides.get? := by
  refine Context.firstsOnly_of_uncachedListing htells h.before.complete s₁.analyzers
    fun p (hp : p ∈ s₁.graph.ids) => ?_
  rcases hkeeps p hp with ⟨ds, e₃, hpreviews, hreturns⟩
  rcases h.before.previews hfaultless hp s₁.overrides false with ⟨ds₁, hpreviews₁, hds₁⟩
  have hgraph : s₂.graph = s₁.graph := congrArg Context.graph h.context
  rcases h.after.returns_diagnostics hfaultless (hgraph.symm ▸ hp) false with
    ⟨ds₂, e₃', hreturns₂, hds₂⟩
  rw [h.context, h.analyzers] at hds₂
  cases hpreviews.unique hpreviews₁
  cases diagnostics_unique hreturns hreturns₂
  exact ⟨ds, hds₂, hds₁⟩

/-- What is previewed is what is committed if each document, of the projects in the
graph, comes first at its path or has the pending text already. A backend that tells
sources apart shows the difference for any other. -/
theorem committed_as_previewed (hbegins : Begins sv streams id e s)
    (hfaultless : sv.backend.Faultless)
    (habsolute : ∀ d ∈ s.workspace.documents, d.path.isAbsolute)
    (batches : List (List DocumentEdit))
    (hstaged : (applyAll sv id e batches).sessions.get? id = some s₁)
    (hcommit : (commit sv id).Returns (applyAll sv id e batches) report e₂)
    (hwritten : report.failed = []) (hcommitted : e₂.sessions.get? id = some s₂)
    (hcovered : ∀ other, s₂.context.Covered sv.backend.environment streams other) :
    (s₁.workspace.FirstsOnly s₁.graph.ids s₁.overrides.get? →
      ∀ p ∈ s₁.graph.ids, ∀ analyzed,
        Keeps sv id (applyAll sv id e batches) s₁ e₂ analyzed p) ∧
    (sv.backend.Tells →
      (∀ p ∈ s₁.graph.ids, Keeps sv id (applyAll sv id e batches) s₁ e₂ false p) →
        s₁.workspace.FirstsOnly s₁.graph.ids s₁.overrides.get?) := by
  have hcommits := hbegins.commits hfaultless habsolute batches hstaged hcommit hwritten
    hcommitted hcovered
  exact ⟨fun hfirsts p hp analyzed => hcommits.keeps hfaultless hfirsts hp analyzed,
    hcommits.firstsOnly hfaultless⟩

/-!
# Projects of one file

For an example, projects that list one file and nothing else, and a backend whose
diagnostics are the contents of the sources.
-/

def finding (id : ProjectId) (d : Document) : Diagnostic :=
  ⟨"", .info, d.content, d.path, 0, 0, id⟩

def mirror : Backend (List Document) where
  name := "mirror"
  environment := ""
  compile u := .compiled ⟨u.project, u.sources⟩
  diagnostics a := a.payload.map (finding a.project)
  analyze _ _ := .ok []

theorem faultless_mirror : mirror.Faultless :=
  ⟨fun _ => ⟨_, rfl⟩, fun _ _ => ⟨_, rfl⟩⟩

theorem tells_mirror : mirror.Tells := by
  intro u u' a a' ha ha' h
  cases ha
  cases ha'
  have hinjective : ∀ ds ds' : List Document,
      ds.map (finding u.project) = ds'.map (finding u'.project) → ds = ds' := by
    intro ds
    induction ds with
    | nil => simp
    | cons d ds ih =>
        intro ds' h
        cases ds' with
        | nil => cases h
        | cons d' ds' =>
            rcases List.cons.inj h with ⟨hhead, htail⟩
            have hd : d = d' := by
              cases d
              cases d'
              simp_all [finding]
            rw [hd, ih ds' htail]
  exact hinjective _ _ h

/-- A store that can always be written. -/
def calm : Services Unit (List Document) where
  store := ⟨fun _ _ => .ok "", fun s _ _ => (.ok (), s), fun s _ _ => (.error "", s)⟩
  backend := mirror
  analyzers _ := .ok (.ofNames [])

/-- The project with an id and one file with its content. -/
def single (row : String × String × String) : Project :=
  ⟨⟨row.1⟩, "", [⟨⟨row.2.1⟩, row.2.2⟩], [], [], ⟨[]⟩⟩

def singles (rows : List (String × String × String)) : Workspace :=
  ⟨⟨"/"⟩, rows.map single⟩

def singlesSession (rows : List (String × String × String)) : Session :=
  .start ⟨"s"⟩ ⟨"/"⟩ .workspace (.ofNames []) (singles rows) 0

def singlesEngine (rows : List (String × String × String)) : Engine Unit (List Document) :=
  (Engine.new .default () true).setSession (singlesSession rows)

/-- Two projects that list the same file. -/
def shared : List (String × String × String) :=
  [("a", "/s", ""), ("b", "/s", "")]

/-- Two projects with a file each. -/
def apart : List (String × String × String) :=
  [("a", "/s", ""), ("b", "/t", "")]

def singlesRows : List (String × String × String) :=
  ("a", "/s", "x") :: ("b", "/t", "") :: shared

def singlesStreams : List (List UInt8) :=
  Stream.ofNames [] :: singlesRows.map fun row => Stream.ofProject (single row) "" []

theorem nodup_singlesStreams :
    (singlesStreams.map fun stream => (Fingerprint.ofStream stream).bytes).Nodup := by
  rw [Fingerprint.ofStream_eq]
  decide +kernel

theorem collisionFree_singles :
    CollisionFree mirror.environment {stream | stream ∈ singlesStreams} where
  injective stream hs other ho h :=
    List.inj_on_of_nodup_map nodup_singlesStreams hs ho (congrArg Fingerprint.bytes h)
  environment := by
    unfold TextFits
    decide

theorem references_singles (rows : List (String × String × String)) :
    ∀ p ∈ (singles rows).projects, p.references = [] := by
  intro p hp
  rcases List.mem_map.mp hp with ⟨row, _, rfl⟩
  rfl

/-- Without references a project lists the contents of its own documents. -/
theorem uncachedListing_singles (session : SessionId) {rows : List (String × String × String)}
    {id : ProjectId} {p : Project} (hp : (singles rows).project? id = some p)
    (set : AnalyzerSet) :
    uncachedListing (.ofWorkspace session (singles rows)) mirror id set false =
      .ok (p.documents.map (finding p.id)) := by
  have hnone : (Context.ofWorkspace session (singles rows)).graph.effectiveDependencies id = [] :=
    Graph.effectiveDependencies_build (references_singles rows) id
  have hfound : (Context.ofWorkspace session (singles rows)).workspace.project? id = some p := hp
  rw [uncachedListing, Context.uncached_eq, hfound, hnone]
  rfl

theorem uncachedListing_override (session : SessionId)
    {rows rows' : List (String × String × String)} {overrides : Overrides} {id : ProjectId}
    {p : Project} (hover : (singles rows).override overrides = singles rows')
    (hp : (singles rows').project? id = some p) (set : AnalyzerSet) :
    uncachedListing ((Context.ofWorkspace session (singles rows)).override overrides) mirror id
      set false = .ok (p.documents.map (finding p.id)) := by
  rw [Context.override_ofWorkspace, hover]
  exact uncachedListing_singles session hp set

theorem fits_single {row : String × String × String} (hrow : row ∈ singlesRows) :
    (single row).Fits := by
  have hrows : ∀ row ∈ singlesRows, row.1.utf8ByteSize < Number.wordLimit ∧
      row.2.1.utf8ByteSize < Number.wordLimit ∧ row.2.2.utf8ByteSize < Number.wordLimit := by
    decide
  rcases hrows row hrow with ⟨hid, hfile⟩
  have hname : TextFits "" := by
    unfold TextFits
    decide
  have hnone : 0 < Number.wordLimit := by decide
  have hone : 1 < Number.wordLimit := by decide
  refine ⟨hid, hname, ⟨hnone, nofun⟩, ⟨hone, fun d hd => ?_⟩, ⟨hnone, nofun⟩, ⟨hnone, nofun⟩⟩
  rw [List.mem_singleton.mp hd]
  exact hfile

/-- Whatever the environment, the streams of the rows are all that is hashed. -/
theorem covered_rows (session : SessionId) {rows : List (String × String × String)}
    {environment : String} {streams : Set (List UInt8)}
    (hrows : ∀ row ∈ rows, row ∈ singlesRows)
    (hstreams : ∀ row ∈ rows, Stream.ofProject (single row) environment [] ∈ streams)
    (hnodes : (Graph.build (singles rows)).projectCount < Number.wordLimit) (other : ProjectId) :
    (Context.ofWorkspace session (singles rows)).Covered environment streams other where
  fits := by
    refine ⟨fun p hp => ?_, hnodes⟩
    rcases List.mem_map.mp hp with ⟨row, hrow, rfl⟩
    exact fits_single (hrows row hrow)
  mem stream hstream := by
    rcases Context.hashes_ofWorkspace (references_singles rows) hstream with ⟨p, hp, rfl⟩
    rcases List.mem_map.mp hp with ⟨row, hrow, rfl⟩
    exact hstreams row hrow

theorem covered_singles (session : SessionId) {rows : List (String × String × String)}
    (hrows : ∀ row ∈ rows, row ∈ singlesRows)
    (hnodes : (Graph.build (singles rows)).projectCount < Number.wordLimit) (other : ProjectId) :
    (Context.ofWorkspace session (singles rows)).Covered mirror.environment
      {stream | stream ∈ singlesStreams} other := by
  refine covered_rows session hrows (fun row hrow => ?_) hnodes other
  exact List.mem_cons_of_mem _ (List.mem_map_of_mem (hrows row hrow))

/-- A new engine with one session is as it is to be. -/
theorem begins_new {sv : Services Unit π} {streams : Set (List UInt8)}
    {w : Workspace} (hfree : CollisionFree sv.backend.environment streams)
    (hnames : Stream.ofNames [] ∈ streams)
    (hcovered : ∀ other,
      (Context.ofWorkspace ⟨"s"⟩ w).Covered sv.backend.environment streams other) :
    Begins sv streams ⟨"s"⟩
      ((Engine.new .default () true).setSession
        (.start ⟨"s"⟩ ⟨"/"⟩ .workspace (.ofNames []) w 0))
      (.start ⟨"s"⟩ ⟨"/"⟩ .workspace (.ofNames []) w 0) where
  free := hfree
  cache := ⟨Config.default.cache, .start Config.default.cache, .refl, ⟨nofun, nofun⟩, rfl⟩
  session := Table.get?_insert_self _ _ _
  keyed := rfl
  reachable := ⟨_, _, _, _, _, _, .refl⟩
  named := by
    have hnormal : AnalyzerSet.normalize [] = [] := by simp [AnalyzerSet.normalize]
    refine ⟨[], rfl, ?_⟩
    rw [hnormal]
    exact ⟨hnames, by decide, nofun⟩
  covered := hcovered

theorem begins_singles (rows : List (String × String × String))
    (hrows : ∀ row ∈ rows, row ∈ singlesRows)
    (hnodes : (Graph.build (singles rows)).projectCount < Number.wordLimit) :
    Begins calm {stream | stream ∈ singlesStreams} ⟨"s"⟩ (singlesEngine rows)
      (singlesSession rows) :=
  begins_new collisionFree_singles List.mem_cons_self (covered_singles _ hrows hnodes)

/-- Puts an `x` in front of the file. -/
def typing : DocumentEdit :=
  ⟨⟨"/s"⟩, [⟨⟨0, 0⟩, "x"⟩]⟩

/-- The session once the edit is staged. -/
def typed (rows : List (String × String × String)) : Session :=
  ((singlesEngine rows).stagedIn (singlesSession rows) [typing]).2

/-- The engine once the edit is applied. -/
def typedEngine (rows : List (String × String × String)) : Engine Unit (List Document) :=
  applyAll calm ⟨"s"⟩ (singlesEngine rows) [[typing]]

theorem context_typed (rows : List (String × String × String)) :
    (typed rows).context = .ofWorkspace ⟨"s"⟩ (singles rows) := by
  have hformed : ({ singlesSession rows with lastAccess := 0 } : Session).Formed :=
    Session.formed_start _ _ _ _ _ _
  exact (staged_stageAll [typing] rfl hformed).left.context

/-- The edit is staged and committed without a failure. -/
theorem returns_typing {rows : List (String × String × String)}
    (rows' : List (String × String × String))
    (hbegins : Begins calm {stream | stream ∈ singlesStreams} ⟨"s"⟩ (singlesEngine rows)
      (singlesSession rows))
    (habsolute : ∀ d ∈ (singles rows).documents, d.path.isAbsolute)
    (hfold : (singles rows).putTexts (typed rows).overrides.get? = singles rows')
    (hrows' : ∀ row ∈ rows', row ∈ singlesRows)
    (hnodes' : (Graph.build (singles rows')).projectCount < Number.wordLimit) :
    ∃ report e₂ s₂, (typedEngine rows).sessions.get? ⟨"s"⟩ = some (typed rows) ∧
      (commit calm ⟨"s"⟩).Returns (typedEngine rows) report e₂ ∧ report.failed = [] ∧
      e₂.sessions.get? ⟨"s"⟩ = some s₂ ∧ s₂.context = .ofWorkspace ⟨"s"⟩ (singles rows') ∧
      ∀ other, s₂.context.Covered mirror.environment {stream | stream ∈ singlesStreams}
        other := by
  have hnonempty : [typing] ≠ [] := List.cons_ne_nil _ _
  rcases hbegins.ready.returns_applyEdits faultless_mirror hnonempty with
    ⟨found, e₁, hreturns, hready, _⟩
  have hready : Ready calm {stream | stream ∈ singlesStreams} ⟨"s"⟩ e₁ (typed rows) := hready
  have happlied : typedEngine rows = e₁ := congrArg Prod.snd hreturns
  rcases hready.toHosts.returns_commit fun _ _ _ => rfl with ⟨report, e₂, hcommit, hwritten⟩
  rcases hready.toHosts.of_returns_commit hcommit hwritten with ⟨s₂, hhosts, halike, hworkspace⟩
  have hstart : (typed rows).workspace = singles rows :=
    congrArg Context.workspace (context_typed rows)
  have hsame : (typed rows).workspace.commitAll (typed rows).pendingEdits = singles rows' := by
    rw [hready.formed.commitAll_eq (hstart ▸ habsolute), hstart, hfold]
  have hcontext : s₂.context = .ofWorkspace ⟨"s"⟩ (singles rows') := by
    have hid : (typed rows).id = ⟨"s"⟩ := congrArg Context.session (context_typed rows)
    rw [Session.context, hhosts.formed.graph, hworkspace, hsame, halike.id, hid]
    rfl
  rw [happlied]
  refine ⟨report, e₂, s₂, hready.session, hcommit, hwritten, hhosts.session, hcontext, ?_⟩
  rw [hcontext]
  exact covered_singles _ hrows' hnodes'

/-- For one, projects with a file each keep their diagnostics. -/
theorem committed_as_previewed_apart : ∃ report e₂,
    (commit calm ⟨"s"⟩).Returns (typedEngine apart) report e₂ ∧ report.failed = [] ∧
      calm.backend.Tells ∧
      ∀ p ∈ (typed apart).graph.ids, ∀ analyzed,
        Keeps calm ⟨"s"⟩ (typedEngine apart) (typed apart) e₂ analyzed p := by
  have hbegins := begins_singles apart (by decide) (by decide +kernel)
  have habsolute : ∀ d ∈ (singles apart).documents, d.path.isAbsolute := by decide +kernel
  rcases returns_typing [("a", "/s", "x"), ("b", "/t", "")] hbegins habsolute (by decide +kernel)
      (by decide) (by decide +kernel) with
    ⟨report, e₂, s₂, hstaged, hcommit, hwritten, hcommitted, _, hcovered⟩
  refine ⟨report, e₂, hcommit, hwritten, tells_mirror, ?_⟩
  refine (committed_as_previewed hbegins faultless_mirror habsolute [[typing]] hstaged hcommit
    hwritten hcommitted hcovered).left ?_
  exact (Workspace.project?_putTexts_iff _ _).mp (by decide +kernel)

/-- Of two projects that list one file, the second does not keep what was previewed. -/
theorem committed_unlike_previewed : ∃ report e₂ s₂ e₃,
    Begins calm {stream | stream ∈ singlesStreams} ⟨"s"⟩ (singlesEngine shared)
      (singlesSession shared) ∧
    calm.backend.Faultless ∧ (∀ d ∈ (singles shared).documents, d.path.isAbsolute) ∧
    (typedEngine shared).sessions.get? ⟨"s"⟩ = some (typed shared) ∧
    (commit calm ⟨"s"⟩).Returns (typedEngine shared) report e₂ ∧ report.failed = [] ∧
    e₂.sessions.get? ⟨"s"⟩ = some s₂ ∧
    (∀ other, s₂.context.Covered mirror.environment {stream | stream ∈ singlesStreams} other) ∧
    ⟨"b"⟩ ∈ (typed shared).graph.ids ∧
    (typedEngine shared).Previews calm (typed shared) (typed shared).overrides false ⟨"b"⟩
      [finding ⟨"b"⟩ ⟨⟨"/s"⟩, "x"⟩] ∧
    (diagnostics calm ⟨"s"⟩ (some ⟨"b"⟩) (some false)).Returns e₂
      ⟨[⟨⟨"b"⟩, [finding ⟨"b"⟩ ⟨⟨"/s"⟩, ""⟩], none⟩]⟩ e₃ ∧
    ¬ Keeps calm ⟨"s"⟩ (typedEngine shared) (typed shared) e₂ false ⟨"b"⟩ := by
  have hbegins := begins_singles shared (by decide) (by decide +kernel)
  have habsolute : ∀ d ∈ (singles shared).documents, d.path.isAbsolute := by decide +kernel
  rcases returns_typing [("a", "/s", "x"), ("b", "/s", "")] hbegins habsolute (by decide +kernel)
      (by decide) (by decide +kernel) with
    ⟨report, e₂, s₂, hstaged, hcommit, hwritten, hcommitted, hcontext, hcovered⟩
  have hcommits := hbegins.commits faultless_mirror habsolute [[typing]] hstaged hcommit hwritten
    hcommitted hcovered
  have hp : ⟨"b"⟩ ∈ (typed shared).graph.ids := by decide +kernel
  rcases hcommits.before.previews faultless_mirror hp (typed shared).overrides false with
    ⟨ds, hpreviews, hds⟩
  have hover : (singles shared).override (typed shared).overrides =
      singles [("a", "/s", "x"), ("b", "/s", "x")] := by decide +kernel
  rw [context_typed] at hds
  cases hds.symm.trans (uncachedListing_override ⟨"s"⟩ hover (p := single ("b", "/s", "x")) rfl _)
  have hp₂ : ⟨"b"⟩ ∈ s₂.graph.ids := by
    rw [show s₂.graph = _ from congrArg Context.graph hcontext]
    decide +kernel
  rcases hcommits.after.returns_diagnostics faultless_mirror hp₂ false with ⟨ds, e₃, hreturns, hds⟩
  rw [hcontext] at hds
  cases hds.symm.trans (uncachedListing_singles ⟨"s"⟩ (p := single ("b", "/s", "")) rfl _)
  refine ⟨report, e₂, s₂, e₃, hbegins, faultless_mirror, habsolute, hstaged, hcommit, hwritten,
    hcommitted, hcovered, hp, hpreviews, hreturns, ?_⟩
  rintro ⟨ds, _, hpreviews', hreturns'⟩
  have hsame := (hpreviews'.unique hpreviews).trans (diagnostics_unique hreturns hreturns')
  revert hsame
  decide

end Engine
end Ripple
