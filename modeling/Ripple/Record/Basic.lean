import Ripple.Data.Value
import Ripple.Fingerprint.Basic
import Ripple.Path

/-!
# Records

A record is written as an object, or as the list of its fields in the order of
their declaration. Names that the record does not have are ignored. A form
says whether such a list may have more items than the record has fields.
-/

namespace Ripple
namespace Data

/-- How strictly lists are read. -/
structure Form where
  surplus : Bool

namespace Form

def json : Form := ⟨false⟩

def toml : Form := ⟨true⟩

end Form

namespace Value

def asText? : Value → Option String
  | .text s => some s
  | _ => none

def asPath? (v : Value) : Option Path :=
  v.asText?.map Path.mk

def asBool? : Value → Option Bool
  | .bool b => some b
  | _ => none

/-- A whole number from zero to below a limit. -/
def asNat? (limit : Nat) : Value → Option Nat
  | .int i => if 0 ≤ i && i < limit then some i.toNat else none
  | _ => none

/-- A whole number stands for a double too. -/
def asFloat? : Value → Option Float
  | .float x => some x
  | .int i => some (Float.ofInt i)
  | _ => none

def asList? (item : Value → Option α) : Value → Option (List α)
  | .list items => items.mapM item
  | _ => none

/-- The fields of a record, each with its value if it is there. A moment is read
as a record with none of them. -/
def record? (form : Form) (names : List String) : Value → Option (List (Option Value))
  | .object fields => some (names.map (field? fields))
  | .moment _ => some (names.map fun _ => none)
  | .list items =>
      if !form.surplus && names.length < items.length then none
      else some ((List.range names.length).map fun i => items[i]?)
  | _ => none

/-- A field that must be there. -/
def required (read : Value → Option α) : Option Value → Option α
  | none => none
  | some v => read v

/-- A field that may be left out. -/
def optional (default : α) (read : Value → Option α) : Option Value → Option α
  | none => some default
  | some v => read v

end Value
end Data

/-!
# Fingerprints

A fingerprint is written as the list of its bytes.
-/

namespace Fingerprint

open Data

def toValue (f : Fingerprint) : Value :=
  .list (f.bytes.map fun b => .ofNat b.toNat)

def ofValue? (v : Value) : Option Fingerprint := do
  let bytes ← v.asList? (Value.asNat? 256)
  ofBytes? (bytes.map Nat.toUInt8)

end Fingerprint
end Ripple
