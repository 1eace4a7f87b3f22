/-!
# Options on a command line

An option has a long name, perhaps a letter, and perhaps a value. Letters can be
written together behind one dash; a value follows its option, after an equals
sign or as the next argument, and in that case starts with no dash. No option
is given twice.
-/

namespace Ripple
namespace Command

structure OptionForm where
  name : String
  letter : Option Char
  takesValue : Bool
  deriving DecidableEq, Repr, Inhabited

/-- An option that was given, with its value if it takes one. -/
structure Given where
  name : String
  value : Option String
  deriving DecidableEq, Repr, Inhabited

/-- What one argument says. -/
inductive ArgumentShape where
  | options (given : List Given)
  /-- The last of the options has its value in the next argument. -/
  | pending (given : List Given) (name : String)
  | operand
  /-- Everything after it is an operand. -/
  | stop
  deriving DecidableEq, Repr, Inhabited

/-!
# One argument
-/

def splitAtEquals (s : List Char) : List Char × Option (List Char) :=
  match s.dropWhile (· ≠ '=') with
  | [] => (s, none)
  | _ :: value => (s.takeWhile (· ≠ '='), some value)

def longShape? (forms : List OptionForm) (s : List Char) : Option ArgumentShape := do
  let (name, value) := splitAtEquals s
  let form ← forms.find? fun f => f.name.toList = name
  match form.takesValue, value with
  | false, none => pure (.options [⟨form.name, none⟩])
  | false, some _ => none
  | true, none => pure (.pending [] form.name)
  | true, some value => pure (.options [⟨form.name, some (String.ofList value)⟩])

/-- A value directly behind its letter may have an equals sign before it. -/
def attachedValue : List Char → String
  | '=' :: value => String.ofList value
  | value => String.ofList value

def letterShape? (forms : List OptionForm) (given : List Given) : List Char → Option ArgumentShape
  | [] => some (.options given)
  | c :: cs => do
      let form ← forms.find? fun f => f.letter = some c
      if !form.takesValue then letterShape? forms (given ++ [⟨form.name, none⟩]) cs
      else if cs.isEmpty then pure (.pending given form.name)
      else pure (.options (given ++ [⟨form.name, some (attachedValue cs)⟩]))

def shapeOf? (forms : List OptionForm) (argument : String) : Option ArgumentShape :=
  match argument.toList with
  | ['-', '-'] => some .stop
  | '-' :: '-' :: s => longShape? forms s
  | ['-'] => some .operand
  | '-' :: s => letterShape? forms [] s
  | _ => some .operand

/-- A dash alone can be a value. -/
def isValue (argument : String) : Bool :=
  argument.toList.head? ≠ some '-' || argument = "-"

/-!
# All arguments
-/

structure Arguments where
  given : List Given
  operands : List String
  deriving DecidableEq, Repr, Inhabited

def Arguments.addGiven (given : List Given) (a : Arguments) : Arguments :=
  { a with given := given ++ a.given }

/-- Reads arguments. If an operand ends the options, all that follows it is
handed out with it. -/
def scan (forms : List OptionForm) (operandEnds : Bool) : List String → Option Arguments
  | [] => some ⟨[], []⟩
  | argument :: rest => do
      match ← shapeOf? forms argument with
      | .options given => pure ((← scan forms operandEnds rest).addGiven given)
      | .pending given name =>
          match rest with
          | value :: rest =>
              if isValue value then
                pure ((← scan forms operandEnds rest).addGiven (given ++ [⟨name, some value⟩]))
              else none
          | [] => none
      | .operand =>
          if operandEnds then pure ⟨[], argument :: rest⟩
          else
            let a ← scan forms operandEnds rest
            pure { a with operands := argument :: a.operands }
      | .stop => if operandEnds then none else pure ⟨[], rest⟩

namespace Arguments

def hasRepeated (a : Arguments) : Bool :=
  let names := a.given.map Given.name
  names.eraseDups.length < names.length

def has (a : Arguments) (name : String) : Bool :=
  a.given.any fun g => g.name = name

def value? (a : Arguments) (name : String) : Option String :=
  (a.given.find? fun g => g.name = name).bind Given.value

end Arguments

/-- The arguments, unless an option is given twice. -/
def scanOnce (forms : List OptionForm) (operandEnds : Bool) (arguments : List String) :
    Option Arguments := do
  let a ← scan forms operandEnds arguments
  if a.hasRepeated then none else pure a

end Command
end Ripple
