import Ripple.Record.Basic
import Ripple.Workspace

/-!
# Written projects and workspaces

Ids are written as their texts. In what is read no field may be missing.
-/

namespace Ripple

open Data

namespace ProjectId

def toValue (id : ProjectId) : Value := .text id.text

def ofValue? (v : Value) : Option ProjectId :=
  v.asText?.map mk

def listToValue (ids : List ProjectId) : Value := .list (ids.map toValue)

end ProjectId

namespace Path

def toValue (p : Path) : Value := .text p.text

end Path

namespace Document

def fieldNames : List String := ["path", "content"]

def toValue (d : Document) : Value :=
  .object [("path", d.path.toValue), ("content", .text d.content)]

def ofValue? (form : Form) (v : Value) : Option Document := do
  let [path, content] ← v.record? form fieldNames | none
  some ⟨← Value.required Value.asPath? path, ← Value.required Value.asText? content⟩

end Document

namespace Options

def toValue (o : Options) : Value :=
  .object (o.rows.map fun row => (row.1, .text row.2))

def ofValue? : Value → Option Options
  | .object fields => do
      let rows ← fields.mapM fun f => f.2.asText?.map fun text => (f.1, text)
      some (ofList rows)
  | _ => none

end Options

namespace Project

def fieldNames : List String :=
  ["id", "name", "documents", "project_references", "metadata_references", "options"]

def toValue (p : Project) : Value :=
  .object [
    ("id", p.id.toValue),
    ("name", .text p.name),
    ("documents", .list (p.documents.map Document.toValue)),
    ("project_references", ProjectId.listToValue p.references),
    ("metadata_references", .ofTexts p.metadata),
    ("options", p.options.toValue)]

def ofValue? (form : Form) (v : Value) : Option Project := do
  let [id, name, documents, references, metadata, options] ← v.record? form fieldNames | none
  some {
    id := ← Value.required ProjectId.ofValue? id
    name := ← Value.required Value.asText? name
    documents := ← Value.required (Value.asList? (Document.ofValue? form)) documents
    references := ← Value.required (Value.asList? ProjectId.ofValue?) references
    metadata := ← Value.required (Value.asList? Value.asText?) metadata
    options := ← Value.required Options.ofValue? options }

end Project

namespace Workspace

def fieldNames : List String := ["root", "projects"]

def toValue (w : Workspace) : Value :=
  .object [("root", w.root.toValue), ("projects", .list (w.projects.map Project.toValue))]

def ofValue? (form : Form) (v : Value) : Option Workspace := do
  let [root, projects] ← v.record? form fieldNames | none
  some {
    root := ← Value.required Value.asPath? root
    projects := ← Value.required (Value.asList? (Project.ofValue? form)) projects }

end Workspace
end Ripple
