import Ripple.Command.Invocation
import Ripple.Data.Json.Writer
import Ripple.Engine.Edits
import Ripple.Engine.Lifecycle
import Ripple.Engine.Queries
import Ripple.Environment.File
import Ripple.Manifest.Load
import Ripple.Outline.Analyzers
import Ripple.Record.Config
import Ripple.Record.Report

/-!
# Running a command

A command opens a session on a workspace, answers one question, and leaves a
disk behind. What goes wrong is told in one line at the end, and the exit code
says that it did.
-/

namespace Ripple
namespace Command

/-- What a command prints, and the disk that it leaves. -/
structure Report where
  code : Nat
  output : String
  errors : String
  disk : Disk

inductive Failure where
  | config (e : ConfigError)
  | backend (cause : String)
  | engine (e : Error)
  | errorsFound (count : Nat)
  /-- The command had to give up. -/
  | stuck
  deriving Repr

/-!
# Text of failures
-/

def Failure.message : Failure → String
  | .config e => e.message
  | .backend cause => cause
  | .engine e => e.message
  | .errorsFound count => toString count ++ " errors found"
  | .stuck => "the operation did not finish"

/-- What is behind a failure, where it has a text of its own. -/
def Failure.cause? : Failure → Option String
  | .config (.unreadable cause) => some cause
  | _ => none

def Failure.render (f : Failure) : String :=
  "Error: " ++ f.message ++
    f.cause?.elim "" (fun cause => "\n\nCaused by:\n    " ++ cause) ++ "\n"

def Failure.ofHalt : Halt → Failure
  | .failed e => .engine e
  | .blocked | .panicked => .stuck

/-!
# Opening a session
-/

def configVariable : String := "ARBOR_CONFIG"

def backendVariable : String := "ARBOR_BACKEND"

def defaultBackend : String := "outline"

/-- A configuration file is given by an option or by the environment. -/
def readConfig (e : Environment) (d : Disk) (s : Settings) : Except Failure Config :=
  match s.config <|> (e.get? configVariable).map Path.mk with
  | none => .ok .default
  | some path =>
      match d.read path with
      | .error cause => .error (.config (.unreadable cause.message))
      | .ok text => (Config.ofToml text).mapError .config

/-- The paths that a command looks at or below, as far as the disk tells: its
root, its configuration, and the directories of the projects. -/
def needed (e : Environment) (d : Disk) (i : Invocation) : List Path :=
  let s := i.settings
  let config := s.config <|> (e.get? configVariable).map Path.mk
  let manifest := do Manifest.ofToml? (← (d.read (s.root.join ⟨manifestName⟩)).toOption)
  [s.root] ++ config.toList ++
    manifest.elim [] fun m => m.entries.map fun entry => s.root.join entry.path

def services (b : Backend Outline.Payload) : Services Disk Outline.Payload where
  store := Disk.store
  backend := b
  analyzers := fun choice => .ok (Outline.analyzersOf choice)

/-- A session, and what has been printed so far. -/
structure Stage where
  engine : Engine Disk Outline.Payload
  session : SessionId
  output : String

abbrev Step := ExceptT Failure (StateM Stage)

/-- Background work that the operation leaves behind is carried out. -/
def Step.ofOperation (sv : Services Disk Outline.Payload)
    (operation : SessionId → Operation Disk Outline.Payload α) : Step α := do
  let s ← get
  let (result, engine) := (operation s.session).run.run s.engine
  set { s with engine := engine.settle sv }
  match result with
  | .ok a => pure a
  | .error h => throw (.ofHalt h)

def Step.print (text : String) : Step Unit :=
  modify fun s => { s with output := s.output ++ text }

/-- The stage on which a command begins. -/
def openStage (sv : Services Disk Outline.Payload) (config : Config) (d : Disk) (s : Settings) :
    Except Failure Stage :=
  let source : Source := if s.single then .project else .workspace
  let engine : Engine Disk Outline.Payload := .new config d true
  match (Engine.start sv source s.root .default).run.run engine with
  | (.ok id, engine) => .ok ⟨engine.settle sv, id, ""⟩
  | (.error h, _) => .error (.ofHalt h)

/-!
# What commands print
-/

def line (text : String) : String := text ++ "\n"

def lines (texts : List String) : String :=
  String.join (texts.map line)

def failedLine (id : ProjectId) (e : Error) : String :=
  id.text ++ ": failed: " ++ e.message

def reportLines (r : Engine.DiagnosticsReport) : List String :=
  r.projects.flatMap fun p =>
    match p.error with
    | some e => [failedLine p.project e]
    | none => p.diagnostics.map Diagnostic.render

def graphLines (g : Engine.GraphSummary) : List String :=
  (g.projects.map fun p =>
    p.id.text ++ " (" ++ toString p.documents ++ " documents) -> [" ++
      ", ".intercalate (p.references.map ProjectId.text) ++ "]") ++
  g.cycles.map fun cycle => "cycle: " ++ " -> ".intercalate (cycle.map ProjectId.text)

def outcomeLines (o : Engine.EditOutcome) : List String :=
  (o.edits.flatMap fun edit =>
    edit.error.elim [] fun e => [edit.file.text ++ ": " ++ e.message]) ++
  o.impacts.flatMap fun i =>
    match i.error with
    | some e => [failedLine i.project e]
    | none =>
        i.delta.introduced.map (fun d => "+ " ++ d.render) ++
          i.delta.resolved.map fun d => "- " ++ d.render

/-- Answers are printed as lines or as data. -/
def printed (s : Settings) (texts : List String) (v : Data.Value) : String :=
  if s.json then line (Data.Json.pretty v) else lines texts

/-!
# The commands
-/

/-- Analyzers run as the configuration says, unless they are switched off. -/
def Settings.analyze? (s : Settings) : Option Bool :=
  if s.withoutAnalyzers then some false else none

def check (sv : Services Disk Outline.Payload) (s : Settings) (only : Option String) :
    Step Unit := do
  let r ← Step.ofOperation sv fun id =>
    Engine.diagnostics sv id (only.map ProjectId.mk) s.analyze?
  Step.print (printed s (reportLines r) r.toValue)
  if r.errorCount ≠ 0 then throw (.errorsFound r.errorCount)

def graph (sv : Services Disk Outline.Payload) (s : Settings) : Step Unit := do
  let g ← Step.ofOperation sv Engine.graphSummary
  Step.print (printed s (graphLines g) g.toValue)

/-- Shows what an edit does to the diagnostics, and then makes it or forgets it. -/
def preview (sv : Services Disk Outline.Payload) (s : Settings) (p : Preview) : Step Unit := do
  let edit : DocumentEdit := ⟨p.file, [⟨⟨p.start, p.length⟩, p.text⟩]⟩
  let o ← Step.ofOperation sv fun id => Engine.applyEdit sv id edit
  Step.print (printed s (outcomeLines o) o.toValue)
  if p.commit then
    let r ← Step.ofOperation sv fun id => Engine.commit sv id
    match r.failure? with
    | some e => throw (.engine e)
    | none => pure ()
  else
    let _ ← Step.ofOperation sv Engine.rollback

def versionText : String := "Arbor v0.1.0"

def failed (f : Failure) (output : String) (d : Disk) : Report :=
  ⟨1, output, f.render, d⟩

/-- Runs a command that needs a session. -/
def onSession (e : Environment) (d : Disk) (s : Settings)
    (command : Services Disk Outline.Payload → Step Unit) : Report :=
  let opened : Except Failure (Services Disk Outline.Payload × Stage) := do
    let config ← readConfig e d s
    let b ← (Backend.ofName? ((e.get? backendVariable).getD defaultBackend)).mapError .backend
    let sv := services b
    pure (sv, ← openStage sv config d s)
  match opened with
  | .error f => failed f "" d
  | .ok (sv, stage) =>
      match (command sv).run.run stage with
      | (.ok (), stage) => ⟨0, stage.output, "", stage.engine.store⟩
      | (.error f, stage) => failed f stage.output stage.engine.store

def Invocation.run (e : Environment) (d : Disk) (i : Invocation) : Report :=
  match i.task with
  | .check only => onSession e d i.settings fun sv => check sv i.settings only
  | .graph => onSession e d i.settings fun sv => graph sv i.settings
  | .preview p => onSession e d i.settings fun sv => preview sv i.settings p
  | .version => ⟨0, line versionText, "", d⟩

def usage : String :=
  "Usage: arbor [-v] [-r ROOT] [-c FILE] [--project] [--json] [--no-analyzers] COMMAND\n\n" ++
  "Commands:\n" ++
  "  check [-o PROJECT]\n" ++
  "  graph\n" ++
  "  preview FILE --start N [--length N] [--text TEXT] [--commit]\n" ++
  "  version\n"

/-- Runs what the arguments ask for, with the environment file taken in. -/
def run (e : Environment) (d : Disk) (arguments : List String) : Report :=
  match Invocation.ofArguments? arguments with
  | none => ⟨2, "", usage, d⟩
  | some i => i.run (e.withNearestFile d) d

end Command
end Ripple
