import RemoteInspector.Channel.Connection
import RemoteInspector.Inspect.Address
import RemoteInspector.Inspect.Arguments
import RemoteInspector.Log.Line
import RemoteInspector.Session.Report
import RemoteInspector.Settings.Reading
import RemoteInspector.Settings.Verbosity

/-!
A run of the inspector: settings, connection, backtrace, report. What the run meets on its way,
files and the machine, is given to it as a value, so a run is a function.
-/

namespace RemoteInspector.Inspect

inductive Failure where
  | unresolved (address : String)
  | unconnected (endpoint : Endpoint) (e : WireError)
  | noBacktrace (e : SessionError)
  | noVariables (e : SessionError)

/-- What lies behind an error of a session, the immediate cause first. -/
def causesOf : SessionError → List String
  | .wire (.json text) => [(WireError.json text).message, text]
  | .wire e => [e.message]
  | .channel f => [f.message]
  | _ => []

def Failure.chain : Failure → String × List String
  | .unresolved address =>
    ("failed to resolve " ++ address,
      ["failed to lookup address information: Name or service not known"])
  | .unconnected endpoint e =>
    ("failed to connect to V8 debugger at " ++ endpoint.text, [e.message])
  | .noBacktrace e => ("backtrace request failed", e.message :: causesOf e)
  | .noVariables e => (e.message, causesOf e)

def hanging (width : Nat) (s : String) : String :=
  ("\n" ++ String.ofList (List.replicate width ' ')).intercalate (s.splitOn "\n")

/-- A list of causes; several are numbered. -/
def causesText : List String → String
  | [] => ""
  | [one] => "\n\nCaused by:\n    " ++ hanging 4 one
  | all => "\n\nCaused by:" ++ String.join (all.mapIdx fun i cause =>
      "\n" ++ String.ofList (List.replicate (5 - (toString i).length) ' ') ++ toString i ++ ": "
        ++ hanging 7 cause)

def Failure.text (f : Failure) : String :=
  let (what, causes) := f.chain
  "Error: " ++ what ++ causesText causes

/-- What a run meets. -/
structure Surroundings where
  /-- The path that the environment gives for the settings. -/
  settingsPath : Option String := none
  /-- The directives that the environment gives for the log. -/
  logDirectives : Option String := none
  /-- What a file holds. -/
  file : String → Except Settings.FileFault Bytes
  /-- Whether a file can be opened to append to it. -/
  appendable : String → Bool
  /-- The addresses of hosts. -/
  resolve : String → Option HostAddress := HostAddress.ofHost?
  /-- What a machine sends at first, and whether it then ends the stream. -/
  dial : Endpoint → Except WireError (Bytes × Bool)
  /-- What the machine does about requests. -/
  sink : Sink

structure Result where
  exit : Nat := 0
  stdout : String := ""
  /-- The line about settings that could not be loaded. -/
  warning : Option String := none
  failure : Option String := none
  usage : Option String := none
  /-- The file that the log goes to, if there is one. -/
  logFile : Option String := none
  /-- The log goes to the standard error stream. -/
  logToStderr : Bool := false
  /-- The lines of the log. -/
  log : List String := []
  /-- The frames that have been written, the last one first. -/
  written : List String := []

def warningText (path : String) (e : Settings.LoadError) : String :=
  "jsmirror-inspect: failed to load config from " ++ path ++ ": " ++ e.message
    ++ "; continuing with defaults"

def loadSettings (w : Surroundings) (path : Option String) : Settings × Option String :=
  match path with
  | none => ({}, none)
  | some path =>
    match Settings.load path (w.file path) with
    | .ok s => (s, none)
    | .error e => ({}, some (warningText path e))

def report (w : Surroundings) (s : Settings) (depth : Nat) :
    Logged (Except Failure String × List String) := do
  match w.resolve s.connection.host with
  | none => pure (.error (.unresolved s.connection.address), [])
  | some host =>
    let endpoint : Endpoint := ⟨host, s.connection.tcpPort⟩
    match w.dial endpoint with
    | .error e => pure (.error (.unconnected endpoint e), [])
    | .ok (bytes, final) =>
      match Connection.establish final bytes with
      | .error e => pure (.error (.unconnected endpoint e), [])
      | .ok connection => do
        let c ← connection
        let options := { s.resolver.options with mode := .sync }
        let d : Debugger :=
          { session := { options := options }, channel := .wire c.correlator w.sink }
        match ← d.requestBacktrace 0 s.resolver.backtraceFrames with
        | (.error e, d) => pure (.error (.noBacktrace e), d.written)
        | (.ok ids, d) =>
          match ← Report.frames depth ids "" d with
          | (.error e, d) => pure (.error (.noVariables e), d.written)
          | (.ok text, d) => pure (.ok text, d.written)

def noteLogFile (s : Settings) (opened : Bool) : Logged Unit :=
  if s.logging.file.isSome && !opened then
    Logged.note .warn Log.config "failed to open log file; file logging disabled"
  else pure ()

def runWith (w : Surroundings) (s : Settings) (depth : Nat) (warning : Option String) : Result :=
  let logFile := s.logging.file.filter w.appendable
  let whole : Logged (Except Failure String × List String) := do
    noteLogFile s logFile.isSome
    report w s depth
  let filter := s.logging.filter w.logDirectives
  let base : Result :=
    { warning := warning, logFile := logFile, logToStderr := s.logging.stderr,
      log := (whole.entries.filter filter.admits).map (Log.Entry.line s.logging.json),
      written := whole.value.2 }
  match whole.value.1 with
  | .ok text => { base with stdout := text }
  | .error f => { base with exit := 1, failure := some f.text }

def run (w : Surroundings) (args : List String) : Result :=
  match Arguments.parse args with
  | .error .version => { stdout := versionText ++ "\n" }
  | .error (.help long) => { stdout := summaryText long ++ "\n" }
  | .error (.usage e) => { exit := 2, usage := some e.message }
  | .ok a =>
    let (s, warning) := loadSettings w (a.config <|> w.settingsPath)
    runWith w (a.override s) a.depth.toNat warning

end RemoteInspector.Inspect
