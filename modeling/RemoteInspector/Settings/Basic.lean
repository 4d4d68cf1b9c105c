import RemoteInspector.Session.Basic

/-!
The settings of the inspector, in three groups: what is logged, where the machine listens, and how
its values are looked up.
-/

namespace RemoteInspector.Settings

structure Logging where
  /-- A level, or the directives of a filter. -/
  level : String := "info"
  json : Bool := false
  stderr : Bool := true
  file : Option String := none
  deriving DecidableEq, Repr, Inhabited

structure Connection where
  host : String := "127.0.0.1"
  tcpPort : UInt16 := 5858
  connectTimeoutMs : UInt64 := 5000
  replyTimeoutMs : UInt64 := 10000
  deriving DecidableEq, Repr, Inhabited

structure Resolver where
  mode : SendMode := .sync
  inlineRefs : Bool := true
  /-- How many frames a backtrace asks for. -/
  backtraceFrames : UInt32 := 10
  deriving DecidableEq, Repr, Inhabited

def Connection.address (c : Connection) : String := c.host ++ ":" ++ toString c.tcpPort.toNat

def Resolver.options (r : Resolver) : LookupOptions := { mode := r.mode, inlineRefs := r.inlineRefs }

end Settings

structure Settings where
  logging : Settings.Logging := {}
  connection : Settings.Connection := {}
  resolver : Settings.Resolver := {}
  deriving DecidableEq, Repr, Inhabited

end RemoteInspector
