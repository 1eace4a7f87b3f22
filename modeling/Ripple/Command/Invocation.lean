import Ripple.Command.Option
import Ripple.Number
import Ripple.Path

/-!
# Invocations

The command line names a command. Options about the workspace come before it,
options of the command after it.
-/

namespace Ripple
namespace Command

/-- What all commands share. -/
structure Settings where
  root : Path
  config : Option Path
  /-- The root is a single project. -/
  single : Bool
  json : Bool
  withoutAnalyzers : Bool
  deriving DecidableEq, Repr, Inhabited

/-- One change of a file, to be looked at before it is made. -/
structure Preview where
  file : Path
  start : Nat
  length : Nat
  text : String
  commit : Bool
  deriving DecidableEq, Repr, Inhabited

inductive Task where
  | check (only : Option String)
  | graph
  | preview (p : Preview)
  | version
  deriving DecidableEq, Repr, Inhabited

structure Invocation where
  settings : Settings
  task : Task
  deriving DecidableEq, Repr, Inhabited

/-!
# Values of options
-/

def digits? (s : List Char) : Option Nat :=
  if s.isEmpty then none
  else s.foldlM (fun n c => if c.isDigit then some (10 * n + (c.toNat - '0'.toNat)) else none) 0

/-- Offsets and lengths are below this. -/
def offsetLimit : Nat := Number.wordLimit

/-- A whole number in decimal digits, perhaps after a plus sign. -/
def offset? (s : String) : Option Nat := do
  let n ← match s.toList with
    | '+' :: rest => digits? rest
    | rest => digits? rest
  if n < offsetLimit then some n else none

def path? (s : String) : Option Path :=
  if s.isEmpty then none else some ⟨s⟩

/-- Reads the value of an option that may be left out. -/
def reading (read : String → Option α) : Option String → Option (Option α)
  | none => some none
  | some s => (read s).map some

/-!
# Reading
-/

def settingForms : List OptionForm := [
  ⟨"verbose", some 'v', false⟩, ⟨"root", some 'r', true⟩, ⟨"config", some 'c', true⟩,
  ⟨"project", none, false⟩, ⟨"json", none, false⟩, ⟨"no-analyzers", none, false⟩]

def checkForms : List OptionForm := [⟨"only", some 'o', true⟩]

def previewForms : List OptionForm := [
  ⟨"start", none, true⟩, ⟨"length", none, true⟩, ⟨"text", none, true⟩, ⟨"commit", none, false⟩]

def settings? (a : Arguments) : Option Settings := do
  let root ← reading path? (a.value? "root")
  pure {
    root := root.getD ⟨"."⟩
    config := ← reading path? (a.value? "config")
    single := a.has "project"
    json := a.has "json"
    withoutAnalyzers := a.has "no-analyzers" }

def preview? (a : Arguments) : Option Preview := do
  let [file] := a.operands | none
  let length ← reading offset? (a.value? "length")
  pure {
    file := ← path? file
    start := ← offset? (← a.value? "start")
    length := length.getD 0
    text := (a.value? "text").getD ""
    commit := a.has "commit" }

def task? (name : String) (arguments : List String) : Option Task :=
  match name with
  | "check" => do
      let a ← scanOnce checkForms false arguments
      if a.operands.isEmpty then pure (.check (a.value? "only")) else none
  | "graph" => do
      let a ← scanOnce [] false arguments
      if a.operands.isEmpty then pure .graph else none
  | "version" => do
      let a ← scanOnce [] false arguments
      if a.operands.isEmpty then pure .version else none
  | "preview" => do pure (.preview (← preview? (← scanOnce previewForms false arguments)))
  | _ => none

/-- The invocation that the arguments spell, if they are in order. -/
def Invocation.ofArguments? (arguments : List String) : Option Invocation := do
  let a ← scanOnce settingForms true arguments
  match a.operands with
  | [] => none
  | name :: rest => pure ⟨← settings? a, ← task? name rest⟩

end Command
end Ripple
