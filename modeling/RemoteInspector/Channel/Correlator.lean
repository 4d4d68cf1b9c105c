import RemoteInspector.Channel.Outcome
import RemoteInspector.Log.Entry
import RemoteInspector.Wire.Frame
import RemoteInspector.Wire.Request

/-!
The correlator gives each request a sequence number, writes it as a frame, and finds for each
response the request it answers. A request is entered in the table of pending ones before its frame
is written, so a response may come, or the table be closed, while the sink still writes. An
asynchronous sender's completion stands in the table itself; a synchronous sender puts a relay
there, waits for what the relay receives, and completes its own completion after that.

Firing a completion runs the code of whoever waits. `Firing.locked` tells whether the table was
locked by the one who fired it, in which case that code must not come back to the correlator.
-/

namespace RemoteInspector

structure Firing (τ : Type) where
  completion : τ
  outcome : Outcome
  locked : Bool := false

/-- What stands in the table for a request. -/
inductive Waiter (τ : Type) where
  | completion (t : τ)
  | relay
  deriving DecidableEq, Repr, Inhabited

/-- The requests under way on one connection. -/
structure Correlator (τ : Type) where
  nextSeq : UInt64 := 1
  closed : Bool := false
  /-- The requests without an outcome, the earliest first. -/
  pending : List (UInt64 × Waiter τ) := []
  /-- What relays have received and their senders have not yet taken. -/
  received : List (UInt64 × Outcome) := []

namespace Correlator

variable {τ : Type}

def without {α : Type} (seq : UInt64) (table : List (UInt64 × α)) : List (UInt64 × α) :=
  table.filter fun (s, _) => s != seq

def settle (c : Correlator τ) (seq : UInt64) (w : Waiter τ) (o : Outcome) :
    Correlator τ × Option (Firing τ) :=
  match w with
  | .completion t => (c, some ⟨t, o, false⟩)
  | .relay => ({ c with received := c.received ++ [(seq, o)] }, none)

structure Routed (τ : Type) where
  correlator : Correlator τ
  fired : Option (Firing τ) := none
  returned : Option Envelope := none

/-- Routes one message. A response completes the request it names; what is not a response is handed
back, and a response that no request waits for is dropped. -/
def deliver (c : Correlator τ) (e : Envelope) : Logged (Routed τ) := do
  if !e.isResponse then pure { correlator := c, returned := some e }
  else match e.requestSeq with
    | none => do
      Logged.note .warn Log.wire "response without request_seq; ignoring"
      pure { correlator := c }
    | some seq =>
      match c.pending.lookup seq with
      | none => do
        Logged.note .debug Log.wire "reply for unknown or timed out request; ignoring"
        pure { correlator := c }
      | some w =>
        let (c, fired) := settle { c with pending := without seq c.pending } seq w (.ok e)
        pure { correlator := c, fired := fired }

def settleAll (fault : ChannelFault) :
    List (UInt64 × Waiter τ) → Correlator τ → Correlator τ × List (Firing τ)
  | [], c => (c, [])
  | (seq, w) :: rest, c =>
    let (c, fired) := c.settle seq w (.error fault)
    let (c, more) := settleAll fault rest c
    (c, fired.toList ++ more)

def close (c : Correlator τ) : Logged (Correlator τ × List (Firing τ)) := do
  if !c.pending.isEmpty then
    Logged.note .debug Log.wire "failing pending requests on close"
  pure (settleAll .closed c.pending { c with closed := true, pending := [] })

inductive Start (τ : Type) where
  | refused (correlator : Correlator τ) (fired : Firing τ) (fault : ChannelFault)
  | written (correlator : Correlator τ) (seq : UInt64) (frame : String)

/-- Numbers a request and enters it in the table. After closing, a request does not use up a
number; one that is too large to be written does. -/
def start (c : Correlator τ) (r : Request) (mode : SendMode) (t : τ) : Logged (Start τ) := do
  if c.closed then pure (.refused c ⟨t, .error .closed, false⟩ .closed)
  else do
    Logged.note .trace Log.wire "sending request"
    let seq := c.nextSeq
    let c := { c with nextSeq := seq + 1 }
    match (r.envelope seq).encodeText with
    | .error e =>
      let fault := ChannelFault.undispatched e.message
      pure (.refused c ⟨t, .error fault, false⟩ fault)
    | .ok frame =>
      let w := match mode with
        | .async => Waiter.completion t
        | .sync => .relay
      pure (.written { c with pending := c.pending ++ [(seq, w)] } seq frame)

abbrev Verdict := Except ChannelFault Unit

structure Finish (τ : Type) where
  correlator : Correlator τ
  fired : Option (Firing τ)
  result : Verdict

/-- The end of an asynchronous send. A refusal fails the request while the table is locked, unless
it has its outcome already. -/
def finishAsync (c : Correlator τ) (seq : UInt64) : Verdict → Finish τ
  | .ok () => ⟨c, none, .ok ()⟩
  | .error fault =>
    match c.pending.lookup seq with
    | some (.completion t) =>
      ⟨{ c with pending := without seq c.pending }, some ⟨t, .error fault, true⟩, .error fault⟩
    | _ => ⟨c, none, .error fault⟩

/-- The end of a synchronous send: what the relay has received, a refusal, or no response in
time. -/
def finishSync (c : Correlator τ) (seq : UInt64) (t : τ) (v : Verdict) : Logged (Finish τ) := do
  let left := { c with pending := without seq c.pending, received := without seq c.received }
  match v with
  | .error fault => pure ⟨left, some ⟨t, .error fault, false⟩, .error fault⟩
  | .ok () =>
    match c.received.lookup seq with
    | some o => pure ⟨left, some ⟨t, o, false⟩, .ok ()⟩
    | none => do
      Logged.note .warn Log.wire "request timed out"
      pure ⟨left, some ⟨t, .error .timeout, false⟩, .ok ()⟩

def finish (c : Correlator τ) (seq : UInt64) (mode : SendMode) (t : τ) (v : Verdict) :
    Logged (Finish τ) :=
  match mode with
  | .async => pure (c.finishAsync seq v)
  | .sync => c.finishSync seq t v

end Correlator

end RemoteInspector
