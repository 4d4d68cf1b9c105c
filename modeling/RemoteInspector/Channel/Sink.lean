import RemoteInspector.Channel.Connection

/-!
Sinks that act while they write. A reaction is what a sink does with one frame: it may deliver
messages, close the correlator, and in the end accept or refuse the frame. `Line` is a correlator
over a sink whose reactions are laid out in advance, with completions that only record what they
receive.
-/

namespace RemoteInspector

/-- One thing that a sink does while it writes a frame. -/
inductive SinkStep where
  /-- Delivers a response to the frame, with these members set. -/
  | reply (members : List (String × Json))
  | deliver (message : Json)
  | close
  /-- The machine ends the connection. -/
  | hangUp
  /-- The session learns that the machine runs again. -/
  | resumed
  /-- Does nothing more and refuses the frame. -/
  | refuse (fault : ChannelFault)
  deriving Inhabited

abbrev Reaction := List SinkStep

namespace SinkStep

def replyJson (seq : UInt64) (members : List (String × Json)) : Json :=
  Json.ofMembers
    ([("type", .string "response"), ("request_seq", .ofUInt64 seq)] ++ members)

def message? (seq : UInt64) : SinkStep → Option Envelope
  | .reply members => (Envelope.ofJson (replyJson seq members)).toOption
  | .deliver message => (Envelope.ofJson message).toOption
  | _ => none

end SinkStep

structure Trace (τ : Type) where
  fired : List (Firing τ) := []
  frames : List String := []
  returned : List Envelope := []

def Trace.append {τ : Type} (a b : Trace τ) : Trace τ :=
  ⟨a.fired ++ b.fired, a.frames ++ b.frames, a.returned ++ b.returned⟩

structure Line (τ : Type) where
  correlator : Correlator τ := {}
  reactions : List Reaction := []

namespace Line

variable {τ : Type}

def deliver (l : Line τ) (e : Envelope) : Logged (Line τ × Trace τ) := do
  let r ← l.correlator.deliver e
  pure ({ l with correlator := r.correlator },
    { fired := r.fired.toList, returned := r.returned.toList })

def close (l : Line τ) : Logged (Line τ × Trace τ) := do
  let (c, fired) ← l.correlator.close
  pure ({ l with correlator := c }, { fired := fired })

def hangUp (l : Line τ) : Logged (Line τ × Trace τ) := do
  Connection.noteHangUp
  l.close

/-- Does what the sink does with the frame of a sequence number, up to its verdict. -/
def react (seq : UInt64) : Reaction → Line τ → Logged (Line τ × Trace τ × Correlator.Verdict)
  | [], l => pure (l, {}, .ok ())
  | .refuse fault :: _, l => pure (l, {}, .error fault)
  | step :: rest, l => do
    let (l, t) ← match step, step.message? seq with
      | .close, _ => l.close
      | .hangUp, _ => l.hangUp
      | _, some e => l.deliver e
      | _, none => pure (l, {})
    let (l, more, v) ← react seq rest l
    pure (l, t.append more, v)

def send (l : Line τ) (r : Request) (mode : SendMode) (t : τ) :
    Logged (Line τ × Trace τ × Correlator.Verdict) := do
  match ← l.correlator.start r mode t with
  | .refused c fired fault => pure ({ l with correlator := c }, { fired := [fired] }, .error fault)
  | .written c seq frame => do
    let reaction := l.reactions.headD []
    let (l, during, v) ← react seq reaction ⟨c, l.reactions.drop 1⟩
    let f ← l.correlator.finish seq mode t v
    let whole := (Trace.append { frames := [frame] } during).append { fired := f.fired.toList }
    pure ({ l with correlator := f.correlator }, whole, f.result)

end Line

end RemoteInspector
