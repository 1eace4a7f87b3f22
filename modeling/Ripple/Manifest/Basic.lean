import Ripple.Data.Toml.Reader
import Ripple.Record.Basic
import Ripple.Project

/-!
# Manifests

A manifest lists the projects of a workspace: the directory of each, relative to
the manifest, the globs for its sources, and what it refers to. All but the name
may be left out.
-/

namespace Ripple
namespace Manifest

open Data

def defaultSources : String := "**/*.arb"

structure Entry where
  name : String
  id : Option String
  path : Path
  sources : List String
  references : List String
  metadata : List String
  options : Options
  deriving Repr, Inhabited

end Manifest

structure Manifest where
  entries : List Manifest.Entry
  deriving Repr, Inhabited

namespace Manifest

open Data

/-!
# Reading
-/

def options? : Value → Option Options
  | .object fields => do
      let rows ← fields.mapM fun f => do pure (f.1, ← f.2.asText?)
      pure (.ofList rows)
  | _ => none

/-- In the form of a list, the id cannot be left out. -/
def id? (v : Value) (field : Option Value) : Option (Option String) :=
  match v, field with
  | .list _, none => none
  | _, none => some none
  | _, some given => given.asText?.map some

def Entry.ofValue? (v : Value) : Option Entry := do
  let [name, id, path, sources, references, metadata, options] ← v.record? .toml
    ["name", "id", "path", "sources", "references", "metadata", "options"] | none
  let texts := Value.asList? Value.asText?
  some {
    name := ← Value.required Value.asText? name
    id := ← id? v id
    path := ← Value.optional ⟨"."⟩ Value.asPath? path
    sources := ← Value.optional [defaultSources] texts sources
    references := ← Value.optional [] texts references
    metadata := ← Value.optional [] texts metadata
    options := ← Value.optional .empty options? options }

def ofValue? (v : Value) : Option Manifest := do
  let [entries] ← v.record? .toml ["project"] | none
  some ⟨← Value.optional [] (Value.asList? Entry.ofValue?) entries⟩

def ofToml? (text : String) : Option Manifest :=
  (Toml.parse text).bind ofValue?

/-- The id of a project is its name, unless it has one of its own. -/
def Entry.projectId (e : Entry) : ProjectId :=
  ⟨e.id.getD e.name⟩

end Manifest
end Ripple
