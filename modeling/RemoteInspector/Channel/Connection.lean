import RemoteInspector.Channel.Correlator

/-!
A connection to a machine, from the debugger's side. The machine greets with a frame that has no
body; after that every frame that holds a message is routed, and the others are passed over. A
frame that cannot be read ends the connection, as the end of the stream does.
-/

namespace RemoteInspector

def ChannelFault.wireError : ChannelFault → WireError
  | .timeout => .timeout
  | .closed | .dropped => .closed
  | .undispatched reason => .protocol reason

structure Connection (τ : Type) where
  greeting : Frame
  correlator : Correlator τ := {}
  /-- Bytes that have come and make up no frame yet. -/
  unread : Bytes := []
  /-- Nothing is read any more. -/
  ended : Bool := false
  /-- The messages that answered no request, in order. -/
  events : List Envelope := []

namespace Connection

variable {τ : Type}

/-- The greeting in front of what a machine sends. While the stream goes on, one that is not
complete does not come in time; `final` tells that the stream has ended. -/
def greet (final : Bool) (s : Bytes) : Except WireError (Frame × Bytes) :=
  if !final && Frame.isPartial s then .error .timeout
  else match Frame.read s with
    | .error e => .error e
    | .ok none => .error .closed
    | .ok (some (f, rest)) =>
      if f.isGreeting then .ok (f, rest)
      else .error (.protocol "expected a header-only connect greeting from the VM")

def noteHangUp : Logged Unit := Logged.note .debug Log.wire "VM closed the connection"

def close (c : Connection τ) : Logged (Connection τ × List (Firing τ)) := do
  let (correlator, fired) ← c.correlator.close
  pure ({ c with correlator := correlator, ended := true }, fired)

def takeBody (c : Connection τ) (body : Bytes) : Logged (Connection τ × List (Firing τ)) := do
  match Envelope.decode body with
  | .error _ => do
    Logged.note .warn Log.wire "dropping undecodable message"
    pure (c, [])
  | .ok e => do
    let r ← c.correlator.deliver e
    pure ({ c with correlator := r.correlator, events := c.events ++ r.returned.toList },
      r.fired.toList)

/-- Takes up all that has come. Every round takes a frame off the bytes or is the last. -/
def takeUp (final : Bool) : (fuel : Nat) → Connection τ → Logged (Connection τ × List (Firing τ))
  | 0, c => pure (c, [])
  | fuel + 1, c => do
    if c.ended || (!final && Frame.isPartial c.unread) then pure (c, [])
    else match Frame.read c.unread with
      | .error _ => do
        Logged.note .warn Log.wire "failed to read frame"
        c.close
      | .ok none => do
        noteHangUp
        c.close
      | .ok (some (f, rest)) => do
        let c := { c with unread := rest }
        let (c, fired) ← if f.isGreeting then pure (c, []) else c.takeBody f.body
        let (c, more) ← takeUp final fuel c
        pure (c, fired ++ more)

def receive (c : Connection τ) (s : Bytes) (final : Bool) :
    Logged (Connection τ × List (Firing τ)) :=
  let c := { c with unread := c.unread ++ s }
  takeUp final (c.unread.length + 1) c

def establish (final : Bool) (s : Bytes) : Except WireError (Logged (Connection τ)) := do
  let (greeting, rest) ← greet final s
  return do
    Logged.note .info Log.wire "connected to V8 debugger"
    let (c, _) ← receive { greeting := greeting } rest final
    pure c

/-- What a subscriber finds who comes late: how many messages have been lost to it, and the rest.
There is room for the least power of two that is not less than `size`. -/
def backlog (size : Nat) (events : List Envelope) : Nat × List Envelope :=
  let lost := events.length - size.nextPowerOfTwo
  (lost, events.drop lost)

end Connection

end RemoteInspector
