import Ripple.Proofs.Fingerprint.Delimited
import Ripple.Proofs.Workspace.Owner

/-!
# What changes a stream

Two streams of one project can be compared from both ends, so they are told apart
without any bound on lengths: by the fingerprints of the dependencies, and by the
content of a document.
-/

namespace Ripple
namespace Stream

theorem length_word (n : Nat) : (word n).length = 8 := by
  rw [word, Fingerprint.length_bytesOf]

/-- A text that ends where another one ends is that text, however long it is. -/
theorem text_append_inj {a c : String} {r s : List UInt8} (hlen : r.length = s.length)
    (h : text a ++ r = text c ++ s) : a = c := by
  have htext := (List.append_inj' h hlen).left
  rw [text, text, bytes, bytes] at htext
  have hword : (word a.toUTF8.data.toList.length).length =
      (word c.toUTF8.data.toList.length).length := by
    rw [length_word, length_word]
  have hdata : a.toUTF8.data = c.toUTF8.data :=
    Array.toList_inj.mp (List.append_inj htext hword).right
  exact String.toByteArray_inj.mp (ByteArray.ext hdata)

/-- What is written for a dependency. -/
def row (d : ProjectId × Fingerprint) : List UInt8 :=
  text d.1.text ++ d.2.bytes

theorem flatMap_row_inj {found found' : List (ProjectId × Fingerprint)}
    (hids : found.map Prod.fst = found'.map Prod.fst)
    (h : found.flatMap row = found'.flatMap row) : found = found' := by
  induction found generalizing found' with
  | nil =>
      rw [List.map_nil, eq_comm, List.map_eq_nil_iff] at hids
      exact hids.symm
  | cons d found ih =>
      cases found' with
      | nil => cases hids
      | cons d' found' =>
          rcases d with ⟨id, f⟩
          rcases d' with ⟨id', f'⟩
          rw [List.map_cons, List.map_cons, List.cons.injEq] at hids
          rcases hids with ⟨hid, hrest⟩
          change id = id' at hid
          subst hid
          rw [List.flatMap_cons, List.flatMap_cons, row, row, List.append_assoc,
            List.append_assoc] at h
          rcases List.append_inj (List.append_cancel_left h)
            (f.length_bytes.trans f'.length_bytes.symm) with ⟨hbytes, htail⟩
          have hf : f = f' := by
            cases f
            cases f'
            simpa using hbytes
          rw [hf, ih hrest htail]

theorem length_flatMap_row {found found' : List (ProjectId × Fingerprint)}
    (hids : found.map Prod.fst = found'.map Prod.fst) :
    (found.flatMap row).length = (found'.flatMap row).length := by
  have hlength (rows : List (ProjectId × Fingerprint)) :
      (rows.flatMap row).length = ((rows.map Prod.fst).map fun id => (text id.text).length + 16).sum := by
    rw [List.length_flatMap, List.map_map]
    congr 1
    apply List.map_congr_left
    intro d _
    rw [row, List.length_append, d.2.length_bytes]
    rfl
  rw [hlength, hlength, hids]

/-- All that is written before the documents. -/
def opening (p : Project) : List UInt8 :=
  text "project" ++ (text p.id.text ++ (text p.name ++
    (listed "options" p.options.rows fun row => [.text row.1, .text row.2]).flatMap part))

/-- All that is written between the documents and the dependencies. -/
def middle (p : Project) (environment : String) : List UInt8 :=
  (listed "references" p.references fun r => [.text r.text]).flatMap part ++
    ((listed "metadata" p.metadata fun m => [.text m]).flatMap part ++
      (text "environment" ++ (text environment ++ text "dependencies")))

/-- What is written for a document. -/
def documentRow (d : Document) : List UInt8 :=
  text d.path.text ++ text d.content

theorem ofProject_eq (p : Project) (environment : String)
    (found : List (ProjectId × Fingerprint)) :
    ofProject p environment found = opening p ++ (text "documents" ++ (word p.documents.length ++
      (p.documents.flatMap documentRow ++ (middle p environment ++
        (word found.length ++ found.flatMap row))))) := by
  simp only [ofProject, ofParts, projectParts, opening, middle, List.flatMap_append,
    flatMap_listed, List.append_assoc, List.flatMap_cons, List.flatMap_nil, List.append_nil, part]
  rfl

/-- The same project against other fingerprints has another stream. -/
theorem found_eq_of_ofProject_eq {p : Project} {environment : String}
    {found found' : List (ProjectId × Fingerprint)}
    (hids : found.map Prod.fst = found'.map Prod.fst)
    (h : ofProject p environment found = ofProject p environment found') : found = found' := by
  have hlength : found.length = found'.length := by
    simpa using congrArg List.length hids
  rw [ofProject_eq, ofProject_eq, hlength] at h
  simp only [List.append_cancel_left_eq] at h
  exact flatMap_row_inj hids h

/-- The project with a new content has another stream, whatever the fingerprints of
its dependencies are. -/
theorem content_eq_of_ofProject_eq {p : Project} {d : Document} {before after : List Document}
    {content environment : String} {found found' : List (ProjectId × Fingerprint)}
    (hdocuments : p.documents = before ++ d :: after)
    (hids : found.map Prod.fst = found'.map Prod.fst)
    (h : ofProject p environment found =
      ofProject (p.renewed d before after content) environment found') : d.content = content := by
  have hlength : found.length = found'.length := by
    simpa using congrArg List.length hids
  rw [ofProject_eq, ofProject_eq, hlength, hdocuments] at h
  simp only [Project.renewed, opening, middle, documentRow, List.flatMap_append, List.flatMap_cons,
    List.length_append, List.length_cons, List.append_assoc, List.append_cancel_left_eq] at h
  apply text_append_inj _ h
  simp only [List.length_append, length_flatMap_row hids]

end Stream
end Ripple
