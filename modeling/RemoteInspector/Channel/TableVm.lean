import RemoteInspector.Channel.Outcome
import RemoteInspector.Wire.Request

/-!
A machine in memory: a table of handles and a backtrace, and a manner in which it answers. It keeps
all requests it has seen, and those it has put off.
-/

namespace RemoteInspector

inductive Manner where
  | reply
  /-- Puts requests off until they are released or failed. -/
  | defer
  | transportFailure
  | sendError
  /-- Replies without success. -/
  | unsuccessful
  deriving DecidableEq, Repr, Inhabited

structure TableVm (τ : Type) where
  handles : List (Handle × Json) := []
  backtrace : Option (Json × List Json) := none
  manner : Manner := .reply
  /-- While set, requests are dropped unseen. -/
  dropping : Bool := false
  requests : List Request := []
  deferred : List (Request × τ) := []
  replies : UInt64 := 0

namespace TableVm

variable {τ : Type}

def insert (v : TableVm τ) (h : Handle) (payload : Json) : TableVm τ :=
  { v with handles := (h, payload) :: v.handles.filter fun (k, _) => k != h }

def remove (v : TableVm τ) (h : Handle) : TableVm τ :=
  { v with handles := v.handles.filter fun (k, _) => k != h }

/-- The entries of a reply to a lookup: what the table holds for the requested handles. -/
def lookupBody (v : TableVm τ) (hs : List Handle) : Json :=
  Json.ofMembers (hs.filterMap fun h =>
    (v.handles.lookup h).map fun payload => (toString h.toNat, payload))

/-- The reply to a request; replies are numbered. -/
def reply (v : TableVm τ) (r : Request) : Envelope × TableVm τ :=
  let n := v.replies + 1
  let e := match r with
    | .lookup hs _ => Envelope.response n "lookup" true (some (v.lookupBody hs))
    | .backtrace .. =>
      let (body, refs) := v.backtrace.getD
        (.object [("totalFrames", .number (.integer 0))], [])
      { Envelope.response n "backtrace" true (some body) with refs := some refs }
    | .resume => { Envelope.response n "continue" true none with running := some true }
  (e, { v with replies := n })

/-- What becomes of a request: an outcome at once, or none yet, and the word of the channel. -/
structure Answer (τ : Type) where
  vm : TableVm τ
  outcome : Option Outcome
  result : Except ChannelFault Unit

def refusal : ChannelFault := .undispatched "mock VM refused the message"

def send (v : TableVm τ) (r : Request) (t : τ) : Answer τ :=
  if v.dropping then ⟨v, some (.error .dropped), .ok ()⟩
  else
    let v := { v with requests := v.requests ++ [r] }
    match v.manner with
    | .reply =>
      let (e, v) := v.reply r
      ⟨v, some (.ok e), .ok ()⟩
    | .defer => ⟨{ v with deferred := v.deferred ++ [(r, t)] }, none, .ok ()⟩
    | .transportFailure => ⟨v, some (.error .closed), .ok ()⟩
    | .sendError => ⟨v, some (.error refusal), .error refusal⟩
    | .unsuccessful =>
      let (e, v) := v.reply r
      ⟨v, some (.ok { e with success := some false, body := none }), .ok ()⟩

def lookupCounts (v : TableVm τ) (h : Handle) : Nat × Nat :=
  let lookups := v.requests.filterMap Request.handles?
  (lookups.length, (lookups.filter fun hs => hs.contains h).length)

end TableVm

end RemoteInspector
