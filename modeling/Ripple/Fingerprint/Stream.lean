import Ripple.Fingerprint.Basic
import Ripple.Project

/-!
# Streams of bytes

What a fingerprint is taken of is written as a stream of parts. Words take
eight bytes and fingerprints sixteen; texts and raw bytes follow their length,
written as a word. A stream starts with the text that names its domain.
-/

namespace Ripple

inductive StreamPart where
  | text (s : String)
  | word (n : Nat)
  | bytes (data : List UInt8)
  | fingerprint (f : Fingerprint)

namespace Stream

/-- Eight bytes, the least significant first. -/
def word (n : Nat) : List UInt8 :=
  Digest.bytesOf n.toUInt64

def bytes (data : List UInt8) : List UInt8 :=
  word data.length ++ data

def text (s : String) : List UInt8 :=
  bytes s.toUTF8.data.toList

def part : StreamPart → List UInt8
  | .text s => text s
  | .word n => word n
  | .bytes data => bytes data
  | .fingerprint f => f.bytes

def ofParts (domain : String) (parts : List StreamPart) : List UInt8 :=
  text domain ++ parts.flatMap part

/-!
# The stream of a project

Everything that a compile of the project can depend on: the project itself, the
environment of the compiler, and the fingerprints of what it compiles against.
-/

/-- The name of a list, its length and its items. -/
def listed (name : String) (items : List α) (write : α → List StreamPart) : List StreamPart :=
  .text name :: .word items.length :: items.flatMap write

def projectParts (p : Project) (environment : String)
    (dependencies : List (ProjectId × Fingerprint)) : List StreamPart :=
  [.text p.id.text, .text p.name] ++
    listed "options" p.options.rows (fun row => [.text row.1, .text row.2]) ++
    listed "documents" p.documents (fun d => [.text d.path.text, .text d.content]) ++
    listed "references" p.references (fun r => [.text r.text]) ++
    listed "metadata" p.metadata (fun m => [.text m]) ++
    [.text "environment", .text environment] ++
    listed "dependencies" dependencies (fun d => [.text d.1.text, .fingerprint d.2])

def ofProject (p : Project) (environment : String)
    (dependencies : List (ProjectId × Fingerprint)) : List UInt8 :=
  ofParts "project" (projectParts p environment dependencies)

def ofNames (names : List String) : List UInt8 :=
  ofParts "analyzer-set" (.word names.length :: names.map .text)

end Stream

/-- The fingerprint of a project against given dependencies. -/
def Project.fingerprint (p : Project) (environment : String)
    (dependencies : List (ProjectId × Fingerprint)) : Fingerprint :=
  .ofStream (Stream.ofProject p environment dependencies)

end Ripple
