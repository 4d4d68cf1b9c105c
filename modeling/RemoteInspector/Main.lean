import RemoteInspector.Inspect.Run
import Std.Async.DNS
import Std.Async.TCP
import Std.Async.Timer

/-!
The program. It reads the settings and the environment, holds the connection, and prints what a run
comes to. A run is a function of what the machine has sent, so it is evaluated anew with every
answer: the first frame that has no answer yet is sent, and the answer to it is waited for.
-/

namespace RemoteInspector.Inspect

open Std.Internal.UV

/-- A connection, and what has come over it and has not been read. -/
structure Wire where
  socket : TCP.Socket
  unread : IO.Ref Bytes
  /-- The machine has ended the stream. -/
  ended : IO.Ref Bool

def await {α : Type} (ms : UInt64) (p : IO.Promise (Except IO.Error α)) :
    IO (Option (Except IO.Error α)) := do
  let timer ← Timer.mk ms false
  let late ← timer.next
  let r ← IO.waitAny [p.result?, late.result?.map fun _ => none]
  timer.stop
  return r

def Endpoint.socketAddress (e : Endpoint) : Std.Net.SocketAddress :=
  match e.host with
  | .short os =>
    let part (i : Nat) : UInt8 := UInt8.ofNat (os.getD i 0)
    .v4 ⟨.ofParts (part 0) (part 1) (part 2) (part 3), e.tcpPort⟩
  | .long gs =>
    let part (i : Nat) : UInt16 := UInt16.ofNat (gs.getD i 0)
    .v6 ⟨.ofParts (part 0) (part 1) (part 2) (part 3) (part 4) (part 5) (part 6) (part 7),
      e.tcpPort⟩

/-- The address of a host, asked for by name where its form does not tell it. -/
def lookUpHost (host : String) : IO (Option HostAddress) := do
  match HostAddress.ofHost? host with
  | some a => return some a
  | none =>
    match ← await 60000 (← DNS.getAddrInfo host "" 0) with
    | some (.ok found) =>
      return found[0]?.map fun
        | .v4 a => .short (a.octets.toList.map (·.toNat))
        | .v6 a => .long (a.segments.toList.map (·.toNat))
    | _ => return none

def Wire.fill (w : Wire) (ms : UInt64) : IO Bool := do
  match ← await ms (← w.socket.recv? 65536) with
  | none => w.socket.cancelRecv; return false
  | some (.ok (some bytes)) => w.unread.modify (· ++ bytes.data.toList); return true
  | some _ => w.ended.set true; return true

/-- The next frame, if one comes in time. -/
partial def Wire.frame? (w : Wire) (ms : UInt64) : IO (Option Frame) := do
  let s ← w.unread.get
  if Frame.isPartial s && !(← w.ended.get) then
    if ← w.fill ms then w.frame? ms else return none
  else
    match Frame.read s with
    | .ok (some (f, rest)) => w.unread.set rest; return some f
    | _ => w.ended.set true; return none

/-- What the machine does about the frame with a sequence number. -/
partial def Wire.reaction (w : Wire) (ms : UInt64) (seq : UInt64) : IO Reaction := do
  match ← w.frame? ms with
  | none => return if ← w.ended.get then [.hangUp] else []
  | some f =>
    match Envelope.decode f.body, Json.parse f.body with
    | .ok e, .ok v =>
      if e.isResponse && e.requestSeq == some seq then return [.deliver v] else w.reaction ms seq
    | _, _ => w.reaction ms seq

/-- Evaluates a run until every frame has been sent and answered, or given up. -/
partial def converse (wire : Wire) (ms : UInt64) (run : List Reaction → Result)
    (answers : List Reaction) : IO Result := do
  let r := run answers
  match r.written.reverse[answers.length]? with
  | none => return r
  | some frame =>
    let _ ← await ms (← wire.socket.send #[frame.toUTF8])
    let a ← wire.reaction ms (UInt64.ofNat (answers.length + 1))
    converse wire ms run (answers ++ [a])

def readSettings (path : String) : IO (Except Settings.FileFault Bytes) := do
  match ← (IO.FS.readBinFile path).toBaseIO with
  | .ok bytes => return .ok bytes.data.toList
  | .error (.noFileOrDirectory ..) => return .error .missing
  | .error _ => return .error .directory

def openLog (path : String) : IO (Option IO.FS.Handle) := do
  match ← (IO.FS.Handle.mk path .append).toBaseIO with
  | .ok h => return some h
  | .error _ => return none

def connect (e : Endpoint) (ms : UInt64) : IO (Except WireError Wire) := do
  let socket ← TCP.Socket.new
  match ← await ms (← socket.connect e.socketAddress) with
  | none => return .error .timeout
  | some (.error _) => return .error (.stream .refused "Connection refused (os error 111)")
  | some (.ok ()) =>
    let wire : Wire := ⟨socket, ← IO.mkRef [], ← IO.mkRef false⟩
    let rec greeting : Nat → IO Unit
      | 0 => return ()
      | n + 1 => do
        if Frame.isPartial (← wire.unread.get) && !(← wire.ended.get) then
          if ← wire.fill ms then greeting n
    greeting (Frame.maxBody + Frame.maxLine)
    return .ok wire

def present (r : Result) (log : Option IO.FS.Handle) : IO UInt32 := do
  for line in r.log do
    if r.logToStderr then IO.eprintln line
    if let some h := log then h.putStrLn line
  IO.print r.stdout
  for text in r.usage.toList ++ r.failure.toList do
    IO.eprintln text
  return UInt32.ofNat r.exit

end RemoteInspector.Inspect

open RemoteInspector RemoteInspector.Inspect in
def main (args : List String) : IO UInt32 := do
  let silent : Surroundings := {
    file := fun _ => .error .missing
    appendable := fun _ => false
    dial := fun _ => .error .closed
    sink := .scripted [] }
  match Arguments.parse args with
  | .error _ => present (run silent args) none
  | .ok a =>
    let settingsPath ← IO.getEnv "JSMIRROR_CONFIG"
    let logDirectives ← IO.getEnv "RUST_LOG"
    let path := a.config <|> settingsPath
    let content ← match path with
      | some p => readSettings p
      | none => pure (.error .missing)
    let base := { silent with settingsPath, logDirectives, file := fun _ => content }
    let (s, warning) := loadSettings base path
    if let some text := warning then IO.eprintln text
    let s := a.override s
    let log ← match s.logging.file with
      | some p => openLog p
      | none => pure none
    let host ← lookUpHost s.connection.host
    let base := { base with resolve := fun _ => host, appendable := fun _ => log.isSome }
    match host with
    | none => present (run base args) log
    | some h =>
      match ← connect ⟨h, s.connection.tcpPort⟩ s.connection.connectTimeoutMs with
      | .error e => present (run { base with dial := fun _ => .error e } args) log
      | .ok wire =>
        let greeting := (← wire.unread.get, ← wire.ended.get)
        match Connection.greet greeting.2 greeting.1 with
        | .ok (_, rest) => wire.unread.set rest
        | .error _ => pure ()
        let w := { base with dial := fun _ => .ok greeting }
        let r ← converse wire s.connection.replyTimeoutMs
          (fun answers => run { w with sink := .scripted answers } args) []
        present r log
