/-!
# Data values

What a data file holds, whichever notation it is written in. The fields of an
object stand in the order in which they were written, each name once.
-/

namespace Ripple
namespace Data

inductive Value where
  | null
  | bool (value : Bool)
  | int (value : Int)
  | float (value : Float)
  | text (value : String)
  | moment (text : String)
  | list (items : List Value)
  | object (fields : List (String × Value))
  deriving Inhabited, Repr

namespace Value

def field? (fields : List (String × Value)) (name : String) : Option Value :=
  (fields.find? fun f => f.1 = name).map Prod.snd

/-- A later field of the same name takes the place of the earlier one. -/
def setField (fields : List (String × Value)) (name : String) (value : Value) :
    List (String × Value) :=
  if fields.any fun f => f.1 = name then
    fields.map fun f => if f.1 = name then (name, value) else f
  else fields ++ [(name, value)]

def ofNat (n : Nat) : Value := .int n

def ofBool (b : Bool) : Value := .bool b

def ofTexts (xs : List String) : Value := .list (xs.map .text)

/-- A value that may be missing is written as `null` when it is. -/
def ofOption (write : α → Value) : Option α → Value
  | none => .null
  | some a => write a

end Value

end Data
end Ripple
