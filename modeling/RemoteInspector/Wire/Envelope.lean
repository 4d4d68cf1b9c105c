import RemoteInspector.Json.Printer
import RemoteInspector.Json.Record
import RemoteInspector.Json.RecordText

/-!
Messages between the debugger and the virtual machine: requests, responses and events share one
record, in which most fields may be absent. `text` writes the fields in their order and leaves out
what is absent; `ofJson` and `read` take a message from a JSON value and from a text.
-/

namespace RemoteInspector

structure Envelope where
  seq : UInt64 := 0
  kind : String := ""
  command : Option String := none
  event : Option String := none
  requestSeq : Option UInt64 := none
  success : Option Bool := none
  message : Option String := none
  running : Option Bool := none
  arguments : Option Json := none
  body : Option Json := none
  refs : Option (List Json) := none
  deriving DecidableEq, Inhabited

namespace Envelope

def isResponse (e : Envelope) : Bool := e.kind == "response"

def isEvent (e : Envelope) : Bool := e.kind == "event"

/-- A response that does not claim success has failed. -/
def isSuccessful (e : Envelope) : Bool := e.success.getD false

def response (requestSeq : UInt64) (command : String) (success : Bool) (body : Option Json) :
    Envelope :=
  { kind := "response", command := some command, requestSeq := some requestSeq,
    success := some success, running := some false, body := body }

def members (e : Envelope) : List (String × Json) :=
  [("seq", .ofUInt64 e.seq), ("type", .string e.kind)] ++
    (e.command.map fun v => ("command", Json.string v)).toList ++
    (e.event.map fun v => ("event", Json.string v)).toList ++
    (e.requestSeq.map fun v => ("request_seq", Json.ofUInt64 v)).toList ++
    (e.success.map fun v => ("success", Json.bool v)).toList ++
    (e.message.map fun v => ("message", Json.string v)).toList ++
    (e.running.map fun v => ("running", Json.bool v)).toList ++
    (e.arguments.map fun v => ("arguments", v)).toList ++
    (e.body.map fun v => ("body", v)).toList ++
    (e.refs.map fun v => ("refs", Json.array v)).toList

def text (e : Envelope) : String := Json.text (.object e.members)

/-- The message with these members; the ones that are absent or `null` take their defaults. -/
def ofMembers (members : List (String × Json)) : Envelope :=
  let get := Json.present? members
  { seq := ((get "seq").bind Json.uint64?).getD 0
    kind := ((get "type").bind Json.string?).getD ""
    command := (get "command").bind Json.string?
    event := (get "event").bind Json.string?
    requestSeq := (get "request_seq").bind Json.uint64?
    success := (get "success").bind fun
      | .bool b => some b
      | _ => none
    message := (get "message").bind Json.string?
    running := (get "running").bind fun
      | .bool b => some b
      | _ => none
    arguments := get "arguments"
    body := get "body"
    refs := (get "refs").bind Json.array? }

def fields : List Json.Field :=
  [⟨"seq", Json.checking Json.expectUInt64, false⟩,
    ⟨"type", Json.checking Json.expectString, false⟩,
    Json.optionalField "command" Json.expectString,
    Json.optionalField "event" Json.expectString,
    Json.optionalField "request_seq" Json.expectUInt64,
    Json.optionalField "success" Json.expectBool,
    Json.optionalField "message" Json.expectString,
    Json.optionalField "running" Json.expectBool,
    Json.optionalField "arguments" Except.ok,
    Json.optionalField "body" Except.ok,
    Json.optionalField "refs" Json.expectArray]

def ofJson (v : Json) : Except Mismatch Envelope :=
  (Json.readRecord "Envelope" fields v).map ofMembers

/-- The fields in order, with their readers. The record itself takes one level of nesting. -/
def readers : Json.FieldReaders :=
  let value := Json.readOrNull (Json.readValue (Json.depthLimit - 1))
  [("seq", Json.readUInt64),
    ("type", Json.readString),
    ("command", Json.readOrNull Json.readString),
    ("event", Json.readOrNull Json.readString),
    ("request_seq", Json.readOrNull Json.readUInt64),
    ("success", Json.readOrNull Json.readBool),
    ("message", Json.readOrNull Json.readString),
    ("running", Json.readOrNull Json.readBool),
    ("arguments", value),
    ("body", value),
    ("refs", Json.readOrNull (Json.readList (Json.depthLimit - 2)))]

def read (s : Bytes) : Except Json.Fault Envelope :=
  (Json.readAll (Json.readRecordText "Envelope" readers) s).map ofMembers

end Envelope

end RemoteInspector
