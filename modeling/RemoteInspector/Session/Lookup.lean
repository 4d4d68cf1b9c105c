import RemoteInspector.Session.Basic
import RemoteInspector.Value.LookupReply
import RemoteInspector.Wire.Request

/-!
How nodes are resolved. Expanding a node makes children for its properties, fills those whose
payload is cached, and asks for the rest by one lookup; a node whose properties are not known is
itself looked up first. A lookup is data: the handles, and who waits for what. `deliver` gives an
outcome to those who wait, which may call for one more lookup.

An outcome for an earlier generation changes nothing: that is checked once, when it is delivered, and
nothing on the way to its last node begins another generation. A node that nobody holds on to any
more is passed over, its payload included.
-/

namespace RemoteInspector

inductive Waiting where
  /-- Nodes that wait for their payloads, and a parent that waits for all of them. -/
  | batch (generation : Nat) (awaited : List (Handle × NodeId)) (parent : Option NodeId)
  /-- A node that waits for its own payload. -/
  | own (generation : Nat) (node : NodeId) (handle : Handle)
  deriving DecidableEq, Inhabited, Repr

structure Lookup where
  handles : List Handle
  waiting : Waiting
  deriving DecidableEq, Inhabited, Repr

def Lookup.request (l : Lookup) (o : LookupOptions) : Request := .lookup l.handles o.inlineRefs

def insertHandle (h : Handle) : List Handle → List Handle
  | [] => [h]
  | k :: ks => if h < k then h :: k :: ks else if h = k then k :: ks else k :: insertHandle h ks

/-- The handles of a list, ascending and without repetitions. -/
def handleSet (hs : List Handle) : List Handle := hs.foldr insertHandle []

namespace Session

/-- The node of a property, filled if its payload is cached. -/
def childNode (s : Session) (parent : NodeId) (n : Node) (r : PropertyRef) : Logged Node :=
  let child := Node.new r.name (n.childPath r.name) n.generation (.node parent) (some r.handle) true
  match s.cache.get? r.handle with
  | some p => child.fill p
  | none => pure child

def addChildren (parent : NodeId) (n : Node) : List PropertyRef → Session →
    Logged (List NodeId × Session)
  | [], s => pure ([], s)
  | r :: rs, s => do
    if isHidden r.name then
      Logged.note .trace Log.resolve "skipping hidden property"
      addChildren parent n rs s
    else do
      let child ← s.childNode parent n r
      let (id, s) := s.addNode child
      let (ids, s) ← addChildren parent n rs s
      pure (id :: ids, s)

def missing (s : Session) (ids : List NodeId) : List (Handle × NodeId) :=
  ids.filterMap fun id => do
    let n ← s.node? id
    let h ← n.facts.handle
    if s.cache.contains h then none else some (h, id)

/-- A lookup for nodes that wait for their payloads. -/
def batch (generation : Nat) (awaited : List (Handle × NodeId)) (parent : Option NodeId) :
    Logged Lookup := do
  Logged.note .debug Log.resolve "requesting lookup batch"
  pure ⟨handleSet (awaited.map (·.1)), .batch generation awaited parent⟩

/-- Makes the children of a node that is pending. The view is there before the lookup is sent, and
without a lookup the node is resolved at once. -/
def populate (s : Session) (id : NodeId) (n : Node) (refs : List PropertyRef) :
    Logged (Session × Option Lookup) := do
  let (ids, s) ← addChildren id n refs s
  let s := s.setNode id { n with view := some (n.compoundView ids) }
  match s.missing ids with
  | [] => do
    let s ← s.recordOn id .replied
    pure (s, none)
  | awaited => do
    let l ← batch n.generation awaited (some id)
    pure (s, some l)

/-- Applies its own payload to a pending node, and expands it if it is still compound. -/
def settleOwn (s : Session) (id : NodeId) (n : Node) (p : Payload) :
    Logged (Session × Option Lookup) := do
  let n ← n.fill p
  let s := s.setNode id n
  if n.resolution = .pending then s.populate id n p.properties else pure (s, none)

/-- Begins to resolve the properties of a node; what is not expandable, or has begun before, stays
as it is. -/
def expand (s : Session) (id : NodeId) : Logged (Session × Option Lookup) := do
  match s.node? id with
  | none => pure (s, none)
  | some n =>
    if !n.isExpandable || (n.resolution.on .expand).isNone then pure (s, none)
    else do
      let n ← n.record .expand
      let s := s.setNode id n
      match n.facts.properties, n.facts.handle with
      | some refs, _ => s.populate id n refs
      | none, none => s.populate id n []
      | none, some h =>
        match s.cache.get? h with
        | some p => s.settleOwn id n p
        | none => pure (s, some ⟨[h], .own n.generation id h⟩)

def ensureProperties (s : Session) (id : NodeId) (refs : List PropertyRef) :
    Logged (Session × Option Lookup) := do
  match s.node? id with
  | none => pure (s, none)
  | some n =>
    if n.facts.isScalar || (n.resolution.on .expand).isNone then pure (s, none)
    else do
      let n ← n.record .expand
      s.populate id n refs

/-- A variable that was reported by handle only, and that nothing has been done about. -/
def isBare (n : Node) : Bool :=
  n.facts.valueType.isNone && n.resolution == .unresolved && n.facts.handle.isSome

def fillBare (s : Session) : List NodeId → Logged Session
  | [] => pure s
  | id :: ids => do
    match s.node? id with
    | some n =>
      match isBare n, n.facts.handle.bind s.cache.get? with
      | true, some p => do
        let n ← n.fill p
        fillBare (s.setNode id n) ids
      | _, _ => fillBare s ids
    | none => fillBare s ids

def bare (s : Session) (ids : List NodeId) : List NodeId :=
  ids.filter fun id => (s.node? id).any isBare

/-- Resolves the bare variables of a frame by one lookup, the first time it is called. -/
def ensureVariables (s : Session) (id : FrameId) :
    Logged (Except SessionError (Session × Option Lookup)) := do
  match s.callFrame? id with
  | none => pure (.ok (s, none))
  | some f =>
    if !s.isCurrent f.generation then pure (.error .stale)
    else if f.requested then pure (.ok (s, none))
    else do
      let s := { s with callFrames := s.callFrames.setIfInBounds id { f with requested := true } }
      let awaited := s.missing (s.bare f.roots)
      let s ← s.fillBare f.roots
      match awaited with
      | [] => pure (.ok (s, none))
      | awaited => do
        Logged.note .debug Log.resolve "resolving frame variables"
        let l ← batch f.generation awaited none
        pure (.ok (s, some l))

def successful? : Outcome → Option Envelope
  | .ok e => if e.isSuccessful then some e else none
  | .error _ => none

def seedRefs (s : Session) (e : Envelope) : Session :=
  match e.refs with
  | some refs => { s with cache := (s.cache.seed s.cache.generation (Payload.ofRefs refs)).1 }
  | none => s

def failAll (s : Session) : List NodeId → Logged Session
  | [] => pure s
  | id :: ids => do
    if s.isAlive id then
      let s ← s.recordOn id .failed
      failAll s ids
    else failAll s ids

def distribute (s : Session) (r : LookupReply) : List (Handle × NodeId) → Logged Session
  | [] => pure s
  | (h, id) :: rest => do
    if !s.isAlive id then distribute s r rest
    else
      match r.get? h, s.node? id with
      | some p, some n => do
        let n ← n.fill p
        distribute ({ s with cache := s.cache.put h p }.setNode id n) r rest
      | _, _ => do
        Logged.note .trace Log.resolve "reply omitted handle"
        distribute s r rest

def deliverBatch (s : Session) (generation : Nat) (awaited : List (Handle × NodeId))
    (parent : Option NodeId) (o : Outcome) : Logged Session := do
  if !s.isCurrent generation then
    Logged.note .debug Log.resolve "discarding lookup reply from an earlier suspension"
    pure s
  else
    let parent := parent.filter s.isAlive
    match successful? o with
    | none => do
      Logged.note .warn Log.resolve "lookup batch failed"
      s.failAll (parent.toList ++ awaited.map (·.2))
    | some e => do
      let s ← (s.seedRefs e).distribute (LookupReply.ofEnvelope e) awaited
      match parent with
      | some p => s.recordOn p .replied
      | none => pure s

def deliverOwn (s : Session) (generation : Nat) (id : NodeId) (h : Handle) (o : Outcome) :
    Logged (Session × Option Lookup) := do
  if !s.isCurrent generation then
    Logged.note .debug Log.resolve "discarding stale lookup reply"
    pure (s, none)
  else if !s.isAlive id then pure (s, none)
  else
    match successful? o with
    | none => do
      Logged.note .warn Log.resolve "lookup failed"
      let s ← s.recordOn id .failed
      pure (s, none)
    | some e =>
      let s := s.seedRefs e
      match (LookupReply.ofEnvelope e).get? h, s.node? id with
      | some p, some n => settleOwn { s with cache := s.cache.put h p } id n p
      | _, _ => do
        Logged.note .debug Log.resolve "reply omitted the requested handle"
        let s ← s.recordOn id .failed
        pure (s, none)

def deliver (s : Session) (w : Waiting) (o : Outcome) : Logged (Session × Option Lookup) :=
  match w with
  | .batch generation awaited parent => do
    let s ← s.deliverBatch generation awaited parent o
    pure (s, none)
  | .own generation id h => s.deliverOwn generation id h o

end Session

end RemoteInspector
