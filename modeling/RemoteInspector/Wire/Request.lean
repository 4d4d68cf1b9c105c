import RemoteInspector.Value.Payload
import RemoteInspector.Wire.Envelope

/-!
The requests that a debugger sends: look up a batch of handles, report the call stack, go on.
-/

namespace RemoteInspector

inductive Request where
  | lookup (handles : List Handle) (inlineRefs : Bool)
  | backtrace (first last : UInt32) (inlineRefs : Bool)
  | resume
  deriving DecidableEq, Inhabited, Repr

namespace Request

def command : Request → String
  | .lookup .. => "lookup"
  | .backtrace .. => "backtrace"
  | .resume => "continue"

def arguments? : Request → Option Json
  | .lookup handles inlineRefs =>
    some (.object [("handles", .array (handles.map Json.ofUInt64)),
      ("includeSource", .bool false), ("inlineRefs", .bool inlineRefs)])
  | .backtrace first last inlineRefs =>
    some (.object [("fromFrame", .ofUInt64 first.toUInt64), ("inlineRefs", .bool inlineRefs),
      ("toFrame", .ofUInt64 last.toUInt64)])
  | .resume => none

def handles? : Request → Option (List Handle)
  | .lookup handles _ => some handles
  | _ => none

def envelope (r : Request) (seq : UInt64) : Envelope :=
  { seq := seq, kind := "request", command := some r.command, arguments := r.arguments? }

end Request

end RemoteInspector
