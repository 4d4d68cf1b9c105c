import RemoteInspector.Channel.Outcome
import RemoteInspector.Remote.Reduction
import RemoteInspector.Session.Cache
import RemoteInspector.Session.Node
import RemoteInspector.Value.Backtrace

/-!
A session: the cache, the frames of the current suspension, and all nodes. Nodes and frames are
numbered in the order of their making and keep their numbers. What nobody holds on to any more is
gone for the replies that are still to come: a frame is held by the session while it is current or
by a caller, a node by its owner as long as that lists it, or by a caller.
-/

namespace RemoteInspector

structure LookupOptions where
  mode : SendMode := .sync
  inlineRefs : Bool := true
  deriving DecidableEq, Inhabited, Repr

/-- A level of a suspended call stack and its variables, arguments before locals. -/
structure CallFrame where
  generation : Nat
  index : UInt32
  function : String
  line : Option UInt32 := none
  column : Option UInt32 := none
  source : Option String := none
  /-- The nodes of the variables. -/
  roots : List NodeId
  /-- The variables reported by handle only have been asked for. -/
  requested : Bool := false
  deriving DecidableEq, Inhabited, Repr

inductive SessionError where
  | readOnly
  | wire (e : WireError)
  | channel (f : ChannelFault)
  | stale
  | unknownFrame (index : UInt32)
  deriving DecidableEq, Repr

def SessionError.message : SessionError → String
  | .readOnly => "remote values are read-only"
  | .wire e => "wire: " ++ e.message
  | .channel f => "channel: " ++ f.message
  | .stale => "the VM has resumed since this frame was captured"
  | .unknownFrame index => "unknown call frame " ++ toString index.toNat

structure Session where
  options : LookupOptions := {}
  cache : Cache := {}
  table : ObjectTable := {}
  nodes : Array Node := #[]
  callFrames : Array CallFrame := #[]
  /-- The frames of the current suspension. -/
  current : List FrameId := []
  /-- Frames that callers hold on to. -/
  heldFrames : List FrameId := []
  /-- Nodes that callers hold on to. -/
  heldNodes : List NodeId := []
  deriving DecidableEq, Inhabited

namespace Session

def node? (s : Session) (id : NodeId) : Option Node := s.nodes[id]?

def callFrame? (s : Session) (id : FrameId) : Option CallFrame := s.callFrames[id]?

def setNode (s : Session) (id : NodeId) (n : Node) : Session :=
  { s with nodes := s.nodes.setIfInBounds id n }

/-- The machine has not resumed since `generation`. -/
def isCurrent (s : Session) (generation : Nat) : Bool := s.cache.generation == generation

def holdsFrame (s : Session) (id : FrameId) : Bool :=
  s.current.contains id || s.heldFrames.contains id

/-- A node that is held by a caller, or listed by an owner that is itself held; owners come before
what they own. -/
def isAlive (s : Session) (id : NodeId) : Bool :=
  s.heldNodes.contains id ||
    match s.node? id with
    | none => false
    | some n =>
      match n.owner with
      | .frame f => s.holdsFrame f
      | .node p =>
        if _h : p < id then
          (match s.node? p with
            | some parent => parent.children.contains id
            | none => false) && s.isAlive p
        else false
termination_by id

def recordOn (s : Session) (id : NodeId) (e : Resolution.Event) : Logged Session :=
  match s.node? id with
  | some n => do
    let n ← n.record e
    pure (s.setNode id n)
  | none => pure s

def addNode (s : Session) (n : Node) : NodeId × Session :=
  (s.nodes.size, { s with nodes := s.nodes.push n })

end Session

end RemoteInspector
