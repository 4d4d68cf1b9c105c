import RemoteInspector.Channel.Sink
import RemoteInspector.Channel.TableVm
import RemoteInspector.Session.Frames

/-!
A session with the channel that its requests go through: a machine in memory, or a correlator over
a sink. Whatever waits for a request is an errand of the session. An outcome may call for another
lookup, which is sent at once, so sends nest: inside of a send the sink may deliver the response to
an earlier request. Every nested send either uses up a reaction of the sink or goes from a node's
own lookup to the lookup of its properties.
-/

namespace RemoteInspector

inductive Errand where
  | lookup (w : Waiting)
  | backtrace
  | resume
  deriving DecidableEq, Inhabited, Repr

inductive Sink where
  /-- One reaction per frame, then none. -/
  | scripted (reactions : List Reaction)
  /-- A reaction by the request and by how many were reacted to before it. -/
  | serving (serve : Nat → Request → Reaction) (served : Nat)

instance : Inhabited Sink := ⟨.scripted []⟩

def Sink.next (r : Request) : Sink → Reaction × Sink
  | .scripted [] => ([], .scripted [])
  | .scripted (reaction :: rest) => (reaction, .scripted rest)
  | .serving serve served =>
    let reaction := serve served r
    (reaction, .serving serve (if reaction.isEmpty then served else served + 1))

/-- How deep sends may nest. A serving sink answers the frame at hand and nothing else. -/
def Sink.depth : Sink → Nat
  | .scripted reactions => reactions.length
  | .serving .. => 1

inductive Channel where
  | memory (vm : TableVm Errand)
  | wire (correlator : Correlator Errand) (sink : Sink)

instance : Inhabited Channel := ⟨.memory {}⟩

/-- A session and its channel. -/
structure Debugger where
  session : Session := {}
  channel : Channel := default
  /-- What came of the last request for a backtrace. -/
  backtrace : Option Outcome := none
  /-- The frames written so far, the last one first. -/
  written : List String := []
  deriving Inhabited

namespace Debugger

def withSession (d : Debugger) (s : Session) : Debugger := { d with session := s }

/-- What sends a lookup and sees to all that comes of it. -/
abbrev Issue := Lookup → Debugger → Logged Debugger

def follow (issue : Issue) (d : Debugger) : Session × Option Lookup → Logged Debugger
  | (s, none) => pure (d.withSession s)
  | (s, some l) => issue l (d.withSession s)

def fire (issue : Issue) (d : Debugger) (errand : Errand) (o : Outcome) : Logged Debugger := do
  match errand with
  | .lookup w => do
    let next ← d.session.deliver w o
    follow issue d next
  | .backtrace => pure { d with backtrace := some o }
  | .resume => do
    match o with
    | .error _ => Logged.note .warn Log.session "continue failed"
    | .ok _ => pure ()
    pure d

def fireAll (issue : Issue) : List (Firing Errand) → Debugger → Logged Debugger
  | [], d => pure d
  | f :: fs, d => do
    let d ← d.fire issue f.completion f.outcome
    fireAll issue fs d

/-- Routes a message to the correlator; what that hands back goes to the session and to the
caller. -/
def route (issue : Issue) (d : Debugger) (e : Envelope) : Logged (Option Envelope × Debugger) := do
  match d.channel with
  | .memory _ => pure (none, d)
  | .wire c sink => do
    let r ← c.deliver e
    let d ← fireAll issue r.fired.toList { d with channel := .wire r.correlator sink }
    match r.returned with
    | some e => do
      let s ← d.session.handleMessage e
      pure (some e, d.withSession s)
    | none => pure (none, d)

def shut (issue : Issue) (d : Debugger) : Logged Debugger := do
  match d.channel with
  | .memory _ => pure d
  | .wire c sink => do
    let (c, fired) ← c.close
    fireAll issue fired { d with channel := .wire c sink }

def react (issue : Issue) (seq : UInt64) :
    Reaction → Debugger → Logged (Debugger × Correlator.Verdict)
  | [], d => pure (d, .ok ())
  | .refuse fault :: _, d => pure (d, .error fault)
  | step :: rest, d => do
    let d ← match step, step.message? seq with
      | .close, _ => d.shut issue
      | .hangUp, _ => do
        Connection.noteHangUp
        d.shut issue
      | .resumed, _ => do
        let s ← d.session.retire
        pure (d.withSession s)
      | _, some e => do
        let (_, d) ← d.route issue e
        pure d
      | _, none => pure d
    react issue seq rest d

def finishSend (issue : Issue) (d : Debugger) (seq : UInt64) (mode : SendMode) (errand : Errand)
    (v : Correlator.Verdict) : Logged (Debugger × Correlator.Verdict) := do
  match d.channel with
  | .memory _ => pure (d, v)
  | .wire c sink => do
    let f ← c.finish seq mode errand v
    let d ← fireAll issue f.fired.toList { d with channel := .wire f.correlator sink }
    pure (d, f.result)

/-- Sends a request. -/
def send : (depth : Nat) → Request → SendMode → Errand → Debugger →
    Logged (Debugger × Correlator.Verdict)
  | 0, _, _, _, d => pure (d, .error .dropped)
  | depth + 1, r, mode, errand, d => do
    let issue : Issue := fun l d => do
      let (d, v) ← send depth (l.request d.session.options) d.session.options.mode
        (.lookup l.waiting) d
      match v with
      | .error _ => Logged.note .debug Log.resolve "lookup not sent"
      | .ok () => pure ()
      pure d
    match d.channel with
    | .memory vm => do
      let a := vm.send r errand
      let d := { d with channel := .memory a.vm }
      match a.outcome with
      | none => pure (d, a.result)
      | some o => do
        let d ← d.fire issue errand o
        pure (d, a.result)
    | .wire c sink => do
      match ← c.start r mode errand with
      | .refused c f fault => do
        let d ← fireAll issue [f] { d with channel := .wire c sink }
        pure (d, .error fault)
      | .written c seq frame => do
        let (reaction, sink) := sink.next r
        let d := { d with channel := .wire c sink, written := frame :: d.written }
        let (d, v) ← react issue seq reaction d
        d.finishSend issue seq mode errand v

def depth (d : Debugger) : Nat :=
  match d.channel with
  | .memory _ => 3
  | .wire _ sink => sink.depth + 3

def issue (l : Lookup) (d : Debugger) : Logged Debugger := do
  let (d, v) ← send d.depth (l.request d.session.options) d.session.options.mode
    (.lookup l.waiting) d
  match v with
  | .error _ => Logged.note .debug Log.resolve "lookup not sent"
  | .ok () => pure ()
  pure d

/-- Holds on to nodes while something is done. -/
def holding {α : Type} (ids : List NodeId) (act : Debugger → Logged (α × Debugger))
    (d : Debugger) : Logged (α × Debugger) := do
  let held := d.session.heldNodes
  let (a, d) ← act (d.withSession { d.session with heldNodes := ids ++ held })
  pure (a, d.withSession { d.session with heldNodes := held })

def expand (d : Debugger) (id : NodeId) : Logged Debugger := do
  let ((), d) ← d.holding [id] fun d => do
    let next ← d.session.expand id
    let d ← d.follow issue next
    pure ((), d)
  pure d

def ensureProperties (d : Debugger) (id : NodeId) (refs : List PropertyRef) :
    Logged Debugger := do
  let ((), d) ← d.holding [id] fun d => do
    let next ← d.session.ensureProperties id refs
    let d ← d.follow issue next
    pure ((), d)
  pure d

def ensureVariables (d : Debugger) (id : FrameId) : Logged (Except SessionError Debugger) := do
  match ← d.session.ensureVariables id with
  | .error e => pure (.error e)
  | .ok next => do
    let d ← d.follow issue next
    pure (.ok d)

/-- Asks for the frames of the call stack and waits for them. -/
def requestBacktrace (d : Debugger) (first last : UInt32) :
    Logged (Except SessionError (List FrameId) × Debugger) := do
  let r := Request.backtrace first last d.session.options.inlineRefs
  let (d, _) ← send d.depth r .sync .backtrace { d with backtrace := none }
  match ← d.session.finishBacktrace d.backtrace with
  | .error e => pure (.error e, d)
  | .ok (ids, s) => pure (.ok ids, d.withSession s)

/-- Lets the machine go on, and ends the suspension if the request was sent. -/
def resume (d : Debugger) : Logged (Except SessionError Unit × Debugger) := do
  let (d, v) ← send d.depth .resume .async .resume d
  match v with
  | .error f => pure (.error (.channel f), d)
  | .ok () => do
    let s ← d.session.retire
    pure (.ok (), d.withSession s)

def deliver (d : Debugger) (e : Envelope) : Logged (Option Envelope × Debugger) := d.route issue e

def close (d : Debugger) : Logged Debugger := d.shut issue

/-- Answers the requests that the machine in memory has put off, each by what it then holds. -/
def releaseAll : List (Request × Errand) → Debugger → Logged Debugger
  | [], d => pure d
  | (r, errand) :: rest, d => do
    match d.channel with
    | .memory vm => do
      let (e, vm) := vm.reply r
      let d ← { d with channel := .memory vm }.fire issue errand (.ok e)
      releaseAll rest d
    | .wire .. => pure d

def failAll (f : ChannelFault) : List (Request × Errand) → Debugger → Logged Debugger
  | [], d => pure d
  | (_, errand) :: rest, d => do
    let d ← d.fire issue errand (.error f)
    failAll f rest d

def takeDeferred (d : Debugger) : List (Request × Errand) × Debugger :=
  match d.channel with
  | .memory vm => (vm.deferred, { d with channel := .memory { vm with deferred := [] } })
  | .wire .. => ([], d)

def releaseDeferred (d : Debugger) : Logged (Nat × Debugger) := do
  let (deferred, d) := d.takeDeferred
  let d ← releaseAll deferred d
  pure (deferred.length, d)

def failDeferred (d : Debugger) (f : ChannelFault) : Logged (Nat × Debugger) := do
  let (deferred, d) := d.takeDeferred
  let d ← failAll f deferred d
  pure (deferred.length, d)

end Debugger

end RemoteInspector
