import RemoteInspector.Channel.Sink
import RemoteInspector.Json.Reader

/-!
A halted machine that serves requests over a connection, from tables. It may keep silent on some
commands, fail others, and end the connection after a number of answers.
-/

namespace RemoteInspector

structure Service where
  /-- The referents of handles, by the handle's number. -/
  handles : Json := .object []
  backtrace : Option Json := none
  refs : Option (List Json) := none
  silent : List String := []
  /-- Commands that fail, with a message or without. -/
  failing : List (String × Option String) := []
  /-- The number of answers after which the connection ends. -/
  answers : Option Nat := none
  /-- A backtrace has no more frames than were asked for. -/
  trims : Bool := false

namespace Service

/-- A value as it is after it has been written and read again. -/
def sent (v : Json) : Json :=
  match Json.parse (Text.utf8 v.text) with
  | .ok v => v
  | .error _ => v

def trim (count : Nat) (body : Json) : Json :=
  match body with
  | .object ms => .object (ms.map fun (name, v) =>
      match name, v with
      | "frames", .array frames => (name, .array (frames.take count))
      | _, _ => (name, v))
  | other => other

def answer (s : Service) : Request → List (String × Json)
  | .lookup hs _ =>
    let found := hs.filterMap fun h =>
      let name := toString h.toNat
      (s.handles.get? name).map fun v => (name, sent v)
    [("body", Json.ofMembers found)]
  | .backtrace _ last _ =>
    let body := s.backtrace.map fun b => sent (if s.trims then trim last.toNat b else b)
    (body.map fun b => ("body", b)).toList ++
      (s.refs.map fun rs => ("refs", Json.array (rs.map sent))).toList
  | .resume => [("running", .bool true)]

def react (s : Service) (answered : Nat) (r : Request) : Reaction :=
  if s.answers.any fun n => n ≤ answered then [.hangUp]
  else if s.silent.contains r.command then []
  else
    let command := ("command", Json.string r.command)
    match s.failing.lookup r.command with
    | some message =>
      [.reply ([command, ("success", .bool false)] ++
        (message.map fun m => ("message", Json.string m)).toList)]
    | none => [.reply ([command, ("success", .bool true)] ++ s.answer r)]

end Service

end RemoteInspector
