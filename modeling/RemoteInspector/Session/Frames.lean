import RemoteInspector.Session.Lookup

/-!
The frames of a session. They are made from bindings or from a backtrace and belong to the
suspension they were made in; when the machine runs again, frames, cache and object names are
retired together.
-/

namespace RemoteInspector

namespace Session

/-- Adds the nodes of the bindings of a frame, less the hidden ones, and tells their numbers. -/
def addBindings (frame : FrameId) : List Binding → Session → Logged (List NodeId × Session)
  | [], s => pure ([], s)
  | b :: bs, s => do
    if isHidden b.name then addBindings frame bs s
    else do
      let n ← Node.ofBinding s.cache.generation (.frame frame) b.name b.value
      let (id, s) := s.addNode n
      let (ids, s) ← addBindings frame bs s
      pure (id :: ids, s)

/-- Makes a frame of the current generation, without listing it. -/
def addFrame (s : Session) (f : StackFrame) : Logged (FrameId × Session) := do
  let id := s.callFrames.size
  let (roots, s) ← addBindings id (f.arguments ++ f.locals) s
  let frame : CallFrame :=
    { generation := s.cache.generation, index := f.index, function := f.function, line := f.line,
      column := f.column, source := f.source, roots := roots }
  pure (id, { s with callFrames := s.callFrames.push frame })

def addFrames : List StackFrame → Session → Logged (List FrameId × Session)
  | [], s => pure ([], s)
  | f :: fs, s => do
    let (id, s) ← s.addFrame f
    let (ids, s) ← addFrames fs s
    pure (id :: ids, s)

def createFrame (s : Session) (index : UInt32) (function : String) (bindings : List Binding) :
    Logged (FrameId × Session) := do
  let (id, s) ← s.addFrame { index := index, function := function, arguments := bindings }
  pure (id, { s with current := s.current ++ [id] })

/-- Takes the frames of a backtrace in place of the current ones; the payloads that came along are
cached first. -/
def materialize (s : Session) (body : Json) (refs : List Json) :
    Logged (Except SessionError (List FrameId × Session)) := do
  match StackFrame.listOfJson body with
  | .error e => pure (.error (.wire e))
  | .ok frames => do
    let (cache, _) := s.cache.seed s.cache.generation (Payload.ofRefs refs)
    let (ids, s) ← addFrames frames { s with cache := cache }
    Logged.note .debug Log.session "materialized backtrace"
    pure (.ok (ids, { s with current := ids }))

/-- A request for a backtrace that ends before its sender returns has an outcome; the sender knows
of no other. -/
def unfinishedRequest : ChannelFault :=
  .undispatched "channel returned before completing a synchronous request"

/-- Takes the frames of the outcome of a request for a backtrace. -/
def finishBacktrace (s : Session) (o : Option Outcome) :
    Logged (Except SessionError (List FrameId × Session)) :=
  match o with
  | none => pure (.error (.channel unfinishedRequest))
  | some (.error f) => pure (.error (.channel f))
  | some (.ok e) =>
    if e.isSuccessful then s.materialize (e.body.getD .null) (e.refs.getD [])
    else pure (.error (.wire (.protocol (e.message.getD "backtrace request failed"))))

def findFrame (s : Session) (index : UInt32) : Except SessionError FrameId :=
  match s.current.find? fun id => (s.callFrame? id).any fun f => f.index == index with
  | some id => .ok id
  | none => .error (.unknownFrame index)

def retire (s : Session) : Logged Session := do
  let cache ← s.cache.invalidate
  Logged.note .info Log.session "suspension retired"
  pure { s with current := [], cache := cache, table := s.table.clear }

/-- A message tells that the machine runs, or that it has halted anew. -/
def endsSuspension (e : Envelope) : Bool :=
  e.running == some true ||
    (e.isEvent && (e.event == some "break" || e.event == some "exception"))

def handleMessage (s : Session) (e : Envelope) : Logged Session :=
  if endsSuspension e then s.retire else pure s

def remoteBinding (s : Session) (name : String) (o : RemoteObject) : Binding × Session :=
  let (p, table) := o.reduce s.table
  (⟨name, p⟩, { s with table := table })

def callBinding (s : Session) (name : String) (data : CallResult) : Binding × Session :=
  let (p, table) := data.reduce s.table
  (⟨name, p⟩, { s with table := table })

/-- Caches the properties of a remote object, so that it expands without a lookup; the object comes
after its properties. -/
def absorb (s : Session) (parent : RemoteObject) (data : PropertyListing) :
    Option Handle × Session :=
  let ((p, children), table) := data.reduce parent s.table
  let (cache, _) := s.cache.seed s.cache.generation children
  let (cache, _) := cache.seed cache.generation [p]
  (p.handle, { s with table := table, cache := cache })

end Session

def CallFrame.debugText (f : CallFrame) : String :=
  let line := match f.line with
    | some n => "Some(" ++ toString n.toNat ++ ")"
    | none => "None"
  "CallFrame \x7b index: " ++ toString f.index.toNat ++ ", function_name: " ++
    Text.quote f.function ++ ", line: " ++ line ++ ", variables: " ++
    toString f.roots.length ++ " \x7d"

end RemoteInspector
