import Ripple.AnalyzerSet
import Ripple.Number

/-!
# Streams tell their parts

Every part of a stream can be told from what follows it, so that a stream says
what it was written from. This needs lengths that fit into a word, which is all
that a machine with addresses of 64 bits can hold.
-/

namespace Ripple

/-- What is written says what it was written from, whatever follows it. -/
def Delimited (write : α → List UInt8) (P : α → Prop) : Prop :=
  ∀ ⦃a c : α⦄ ⦃r s : List UInt8⦄, P a → P c → write a ++ r = write c ++ s → a = c ∧ r = s

/-- The length of a text fits into a word. -/
def TextFits (s : String) : Prop :=
  s.utf8ByteSize < Number.wordLimit

/-- The length of a list fits into a word, and so do its items. -/
def ListFits (P : α → Prop) (items : List α) : Prop :=
  items.length < Number.wordLimit ∧ ∀ a ∈ items, P a

namespace Stream

/-!
# Words, texts and fingerprints
-/

theorem bytesOf_inj {v w : UInt64} (h : Digest.bytesOf v = Digest.bytesOf w) : v = w := by
  have hbyte : ∀ i < 8, v.toNat / 2 ^ (8 * i) % 2 ^ 8 = w.toNat / 2 ^ (8 * i) % 2 ^ 8 := by
    intro i hi
    have hget := congrArg (fun l => (l[i]?).map UInt8.toNat) h
    have hshift : 8 * i % 18446744073709551616 % 64 = 8 * i := by omega
    simpa [Digest.bytesOf, hi, Nat.shiftRight_eq_div_pow, hshift] using hget
  -- the lowest bytes agree, by induction on their number
  have hlow : ∀ i ≤ 8, v.toNat % 2 ^ (8 * i) = w.toNat % 2 ^ (8 * i) := by
    intro i
    induction i with
    | zero =>
        intro _
        simp [Nat.mod_one]
    | succ i ih =>
        intro hi
        rw [Nat.mul_succ, Nat.pow_add, Nat.mod_mul, Nat.mod_mul, ih (by omega),
          hbyte i (by omega)]
  apply UInt64.toNat_inj.mp
  have hall := hlow 8 (Nat.le_refl 8)
  rwa [Nat.mod_eq_of_lt v.toNat_lt, Nat.mod_eq_of_lt w.toNat_lt] at hall

theorem delimited_word : Delimited word (· < Number.wordLimit) := by
  intro m n r s hm hn h
  have hlen : (word m).length = (word n).length := by
    simp [word, Fingerprint.length_bytesOf]
  rcases List.append_inj h hlen with ⟨hword, hrest⟩
  have hnat := congrArg UInt64.toNat (bytesOf_inj hword)
  have hm : m < 2 ^ 64 := hm
  have hn : n < 2 ^ 64 := hn
  simp only [Nat.toUInt64, UInt64.toNat_ofNat', Nat.mod_eq_of_lt hm, Nat.mod_eq_of_lt hn] at hnat
  exact ⟨hnat, hrest⟩

theorem delimited_bytes : Delimited bytes (·.length < Number.wordLimit) := by
  intro a c r s ha hc h
  rw [bytes, bytes, List.append_assoc, List.append_assoc] at h
  rcases delimited_word ha hc h with ⟨hlen, h⟩
  exact List.append_inj h hlen

theorem delimited_text : Delimited text TextFits := by
  intro a c r s ha hc h
  have hlen : ∀ t : String, t.toUTF8.data.toList.length = t.utf8ByteSize := by
    intro t
    simp
  rcases delimited_bytes (show _ < _ from hlen a ▸ ha) (show _ < _ from hlen c ▸ hc) h with
    ⟨hbytes, hrest⟩
  have hdata : a.toUTF8.data = c.toUTF8.data := Array.toList_inj.mp hbytes
  exact ⟨String.toByteArray_inj.mp (ByteArray.ext hdata), hrest⟩

theorem delimited_fingerprint : Delimited Fingerprint.bytes fun _ => True := by
  intro f g r s _ _ h
  rcases List.append_inj h (f.length_bytes.trans g.length_bytes.symm) with ⟨hbytes, hrest⟩
  cases f
  cases g
  exact ⟨by simpa using hbytes, hrest⟩

/-!
# Pairs, lists and records
-/

theorem delimited_comp {write : β → List UInt8} {P : β → Prop} {f : α → β}
    (hf : Function.Injective f) (hwrite : Delimited write P) :
    Delimited (fun a => write (f a)) fun a => P (f a) := by
  intro a c r s ha hc h
  rcases hwrite ha hc h with ⟨heq, hrest⟩
  exact ⟨hf heq, hrest⟩

theorem delimited_pair {first : α → List UInt8} {second : β → List UInt8} {P : α → Prop}
    {Q : β → Prop} (hfirst : Delimited first P) (hsecond : Delimited second Q) :
    Delimited (fun x : α × β => first x.1 ++ second x.2) fun x => P x.1 ∧ Q x.2 := by
  intro a c r s ha hc h
  rw [List.append_assoc, List.append_assoc] at h
  rcases hfirst ha.left hc.left h with ⟨heq, hrest⟩
  rcases hsecond ha.right hc.right hrest with ⟨heq', hrest'⟩
  exact ⟨Prod.ext heq heq', hrest'⟩

theorem flatMap_append_inj {write : α → List UInt8} {P : α → Prop} (hwrite : Delimited write P)
    {as cs : List α} {r s : List UInt8} (hlen : as.length = cs.length)
    (has : ∀ a ∈ as, P a) (hcs : ∀ c ∈ cs, P c)
    (h : as.flatMap write ++ r = cs.flatMap write ++ s) : as = cs ∧ r = s := by
  induction as generalizing cs with
  | nil =>
      cases cs with
      | nil =>
          exact ⟨rfl, h⟩
      | cons c cs =>
          cases hlen
  | cons a as ih =>
      cases cs with
      | nil =>
          cases hlen
      | cons c cs =>
          simp only [List.flatMap_cons, List.append_assoc] at h
          rw [List.forall_mem_cons] at has hcs
          rcases hwrite has.left hcs.left h with ⟨hhead, hrest⟩
          rcases ih (by simpa using hlen) has.right hcs.right hrest with ⟨htail, hrest'⟩
          exact ⟨by rw [hhead, htail], hrest'⟩

theorem flatMap_listed (name : String) (items : List α) (write : α → List StreamPart) :
    (listed name items write).flatMap part =
      text name ++ (word items.length ++ items.flatMap fun a => (write a).flatMap part) := by
  simp [listed, part, List.flatMap_assoc]

theorem delimited_listed (name : String) {write : α → List StreamPart} {P : α → Prop}
    (hwrite : Delimited (fun a => (write a).flatMap part) P) :
    Delimited (fun items => (listed name items write).flatMap part) (ListFits P) := by
  intro as cs r s has hcs h
  simp only [flatMap_listed, List.append_assoc] at h
  rcases delimited_word has.left hcs.left (List.append_cancel_left h) with ⟨hlen, hrest⟩
  exact flatMap_append_inj hwrite hlen has.right hcs.right hrest

end Stream

/-!
# Projects and sets of analyzers
-/

/-- All lengths of a project fit into words. -/
structure Project.Fits (p : Project) : Prop where
  id : TextFits p.id.text
  name : TextFits p.name
  options : ListFits (fun row => TextFits row.1 ∧ TextFits row.2) p.options.rows
  documents : ListFits (fun d => TextFits d.path.text ∧ TextFits d.content) p.documents
  references : ListFits (fun r => TextFits r.text) p.references
  metadata : ListFits TextFits p.metadata

namespace Stream

theorem delimited_row :
    Delimited (fun row : String × String => [StreamPart.text row.1, .text row.2].flatMap part)
      fun row => TextFits row.1 ∧ TextFits row.2 := by
  have h := delimited_pair delimited_text delimited_text
  simpa only [part, List.flatMap_cons, List.flatMap_nil, List.append_nil] using h

theorem delimited_document :
    Delimited
      (fun d : Document => [StreamPart.text d.path.text, .text d.content].flatMap part)
      fun d => TextFits d.path.text ∧ TextFits d.content := by
  have hinj : Function.Injective fun d : Document => (d.path.text, d.content) := by
    rintro ⟨⟨a⟩, x⟩ ⟨⟨c⟩, y⟩ h
    simpa using h
  exact delimited_comp hinj delimited_row

theorem delimited_reference :
    Delimited (fun r : ProjectId => [StreamPart.text r.text].flatMap part)
      fun r => TextFits r.text := by
  have hinj : Function.Injective ProjectId.text := by
    rintro ⟨a⟩ ⟨c⟩ h
    simpa using h
  have h := delimited_comp hinj delimited_text
  simpa only [part, List.flatMap_cons, List.flatMap_nil, List.append_nil] using h

theorem delimited_metadata :
    Delimited (fun m : String => [StreamPart.text m].flatMap part) TextFits := by
  simpa only [part, List.flatMap_cons, List.flatMap_nil, List.append_nil] using delimited_text

theorem delimited_dependency :
    Delimited
      (fun d : ProjectId × Fingerprint =>
        [StreamPart.text d.1.text, .fingerprint d.2].flatMap part)
      fun d => TextFits d.1.text := by
  intro a c r s ha hc h
  have hpair := delimited_pair delimited_reference delimited_fingerprint
  apply hpair ⟨ha, trivial⟩ ⟨hc, trivial⟩
  simpa [part] using h

/-- A project, the environment and the dependencies, as they are written. -/
theorem delimited_ofProject :
    Delimited (fun x : Project × String × List (ProjectId × Fingerprint) =>
        ofProject x.1 x.2.1 x.2.2)
      fun x => x.1.Fits ∧ TextFits x.2.1 ∧ ListFits (fun d => TextFits d.1.text) x.2.2 := by
  rintro ⟨p, e, ds⟩ ⟨p', e', ds'⟩ r s ⟨hp, he, hds⟩ ⟨hp', he', hds'⟩ h
  simp only [ofProject, ofParts, projectParts, List.flatMap_append, List.append_assoc] at h
  have h := List.append_cancel_left h
  rcases delimited_row (a := (p.id.text, p.name)) (c := (p'.id.text, p'.name))
      ⟨hp.id, hp.name⟩ ⟨hp'.id, hp'.name⟩ h with
    ⟨hhead, h⟩
  rcases delimited_listed "options" delimited_row hp.options hp'.options h with ⟨hoptions, h⟩
  rcases delimited_listed "documents" delimited_document hp.documents hp'.documents h with
    ⟨hdocuments, h⟩
  rcases delimited_listed "references" delimited_reference hp.references hp'.references h with
    ⟨hreferences, h⟩
  rcases delimited_listed "metadata" delimited_metadata hp.metadata hp'.metadata h with
    ⟨hmetadata, h⟩
  have htag : TextFits "environment" := by
    unfold TextFits
    decide
  rcases delimited_row (a := ("environment", e)) (c := ("environment", e'))
      ⟨htag, he⟩ ⟨htag, he'⟩ h with
    ⟨henvironment, h⟩
  rcases delimited_listed "dependencies" delimited_dependency hds hds' h with ⟨hdependencies, hrest⟩
  cases p with
  | mk id name documents references metadata options =>
      cases p' with
      | mk id' name' documents' references' metadata' options' =>
          cases id
          cases id'
          cases options
          cases options'
          simp_all

theorem delimited_ofNames : Delimited ofNames (ListFits TextFits) := by
  intro as cs r s has hcs h
  simp only [ofNames, ofParts, List.flatMap_cons, part, List.append_assoc] at h
  rcases delimited_word has.left hcs.left (List.append_cancel_left h) with ⟨hlen, hrest⟩
  simp only [List.flatMap_map, part] at hrest
  exact flatMap_append_inj delimited_text hlen has.right hcs.right hrest

end Stream
end Ripple
