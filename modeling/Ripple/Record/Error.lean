import Ripple.Error
import Ripple.Record.Project

/-!
# Written errors

An error inside a report is written as an object with one field, named for the
kind of error; a cancelled operation is written as a text alone.
-/

namespace Ripple

open Data

namespace SessionId

def toValue (id : SessionId) : Value := .text id.text

def ofValue? (v : Value) : Option SessionId :=
  v.asText?.map mk

end SessionId

namespace Error

def name : Error → String
  | .sessionNotFound _ => "SessionNotFound"
  | .projectNotFound _ => "ProjectNotFound"
  | .documentNotFound _ => "DocumentNotFound"
  | .invalidInput _ => "InvalidInput"
  | .backend _ => "Backend"
  | .partialFailure _ _ _ => "PartialFailure"
  | .cancelled => "Cancelled"

def toValue (e : Error) : Value :=
  match e with
  | .sessionNotFound id => .object [(e.name, id.toValue)]
  | .projectNotFound id => .object [(e.name, id.toValue)]
  | .documentNotFound path => .object [(e.name, path.toValue)]
  | .invalidInput cause => .object [(e.name, .text cause)]
  | .backend cause => .object [(e.name, .text cause)]
  | .partialFailure failed total causes =>
      .object [(e.name, .object [
        ("failed", .ofNat failed), ("total", .ofNat total), ("message", .text causes)])]
  | .cancelled => .text e.name

end Error

namespace Error.Kind

def name : Kind → String
  | .notFound => "NotFound"
  | .invalidInput => "InvalidInput"
  | .backendFailure => "BackendFailure"
  | .partialFailure => "PartialFailure"
  | .cancelled => "Cancelled"

end Error.Kind

def Status.name : Status → String
  | .success => "Success"
  | .partialSuccess => "PartialSuccess"
  | .failure => "Failure"

end Ripple
