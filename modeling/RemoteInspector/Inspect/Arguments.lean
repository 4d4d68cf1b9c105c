import RemoteInspector.Settings.Basic
import RemoteInspector.Text.Digits

/-!
The command line. Every option takes one value, behind an equals sign or as the next argument. The
value of an option is looked at when the next option begins or the arguments end, so a later
mistake may be reported before an earlier one.
-/

namespace RemoteInspector.Inspect

inductive Key where
  | config
  | host
  | tcpPort
  | depth
  | frames
  deriving DecidableEq, Repr, Inhabited

def Key.name : Key → String
  | .config => "config"
  | .host => "host"
  | .tcpPort => "port"
  | .depth => "depth"
  | .frames => "frames"

def Key.all : List Key := [.config, .host, .tcpPort, .depth, .frames]

def Key.text (k : Key) : String := "--" ++ k.name ++ " <" ++ k.name.toUpper ++ ">"

structure Arguments where
  /-- The path of the settings. -/
  config : Option String := none
  host : Option String := none
  tcpPort : Option UInt16 := none
  /-- How many levels of properties to expand. -/
  depth : UInt64 := 1
  /-- How many frames to ask for. -/
  frames : Option UInt32 := none
  deriving DecidableEq, Repr, Inhabited

inductive UsageError where
  | badValue (value : String) (key : Key) (reason : String)
  | noValue (key : Key)
  | repeated (key : Key)
  | unexpected (argument : String)
  | unexpectedValue (value flag : String)
  deriving DecidableEq, Repr

def UsageError.message (e : UsageError) : String :=
  let whole := match e with
    | .badValue v k reason => "invalid value '" ++ v ++ "' for '" ++ k.text ++ "': " ++ reason
    | .noValue k => "a value is required for '" ++ k.text ++ "' but none was supplied"
    | .repeated k => "the argument '" ++ k.text ++ "' cannot be used multiple times"
    | .unexpected a => "unexpected argument '" ++ a ++ "' found"
    | .unexpectedValue v flag =>
      "unexpected value '" ++ v ++ "' for '" ++ flag ++ "' found; no more were expected"
  String.ofList (("error: " ++ whole).toList.takeWhile (· != '\n'))

inductive Halt where
  | version
  /-- The long form of the help has full sentences. -/
  | help (long : Bool)
  | usage (e : UsageError)
  deriving DecidableEq, Repr

def versionText : String := "jsmirror-inspect 0.1.0"

def summaryText (long : Bool) : String :=
  "Prints the call stack and variables of a suspended V8 VM" ++ if long then "." else ""

/-- The command line as far as it has been read. -/
structure Progress where
  arguments : Arguments := {}
  /-- The options that have their values. -/
  given : List Key := []
  /-- The option that has been seen last, and its value if that has been seen. -/
  pending : Option (Key × Option String) := none
  /-- All that follows is no option. -/
  plain : Bool := false
  deriving DecidableEq, Repr, Inhabited

def ranged (k : Key) (greatest : Nat) (v : String) : Except UsageError Nat :=
  match Text.readSigned Text.int64Bound v with
  | .error f => .error (.badValue v k f.message)
  | .ok n =>
    if 0 ≤ n ∧ n.natAbs ≤ greatest then .ok n.natAbs
    else .error (.badValue v k (toString n ++ " is not in 0..=" ++ toString greatest))

def Arguments.set (a : Arguments) (k : Key) (v : String) : Except UsageError Arguments :=
  match k with
  | .config => if v.isEmpty then .error (.noValue k) else .ok { a with config := some v }
  | .host => .ok { a with host := some v }
  | .tcpPort => do
    let n ← ranged k (UInt16.size - 1) v
    return { a with tcpPort := some (UInt16.ofNat n) }
  | .depth =>
    match Text.readUInt64 v with
    | .error f => .error (.badValue v k f.message)
    | .ok n => .ok { a with depth := n }
  | .frames => do
    let n ← ranged k (UInt32.size - 1) v
    return { a with frames := some (UInt32.ofNat n) }

namespace Progress

/-- Gives an option its value. That it has none is found first, then that it has one already. -/
def give (p : Progress) (k : Key) (v : Option String) : Except UsageError Progress :=
  match v with
  | none => .error (.noValue k)
  | some v => do
    if p.given.contains k then .error (.repeated k)
    return { p with arguments := ← p.arguments.set k v, given := k :: p.given, pending := none }

def settle (p : Progress) : Except UsageError Progress :=
  match p.pending with
  | none => .ok p
  | some (k, v) => p.give k v

def orHalt {α : Type} : Except UsageError α → Except Halt α
  | .ok a => .ok a
  | .error e => .error (.usage e)

def splitValue (s : List Char) : String × Option String :=
  match s.dropWhile (· != '=') with
  | [] => (String.ofList s, none)
  | _ :: v => (String.ofList (s.takeWhile (· != '=')), some (String.ofList v))

def flag (p : Progress) (name : String) (v : Option String) (halt : Halt) : Except Halt Progress :=
  match v with
  | some v => .error (.usage (.unexpectedValue v name))
  | none => do
    let _ ← orHalt p.settle
    .error halt

def long (p : Progress) (s : List Char) : Except Halt Progress :=
  let (name, v) := splitValue s
  match Key.all.find? fun k => k.name == name with
  | some k => do
    let p ← orHalt p.settle
    match v with
    | some v => orHalt (p.give k (some v))
    | none => return { p with pending := some (k, none) }
  | none =>
    if name = "help" then p.flag "--help" v (.help true)
    else if name = "version" then p.flag "--version" v .version
    else .error (.usage (.unexpected ("--" ++ name)))

/-- An argument behind one dash: flags of one letter, of which the first decides. -/
def short (p : Progress) (c : Char) : Except Halt Progress :=
  if c = 'h' then p.flag "-h" none (.help false)
  else if c = 'V' then p.flag "-V" none .version
  else .error (.usage (.unexpected (String.ofList ['-', c])))

/-- An argument without dashes: the value of the option before it. -/
def value (p : Progress) (s : String) : Except Halt Progress :=
  match p.pending, p.plain with
  | some (k, none), false => .ok { p with pending := some (k, some s) }
  | _, _ => .error (.usage (.unexpected s))

def next (p : Progress) (s : String) : Except Halt Progress :=
  if p.plain then p.value s
  else match s.toList with
    | ['-', '-'] => .ok { p with plain := true }
    | '-' :: '-' :: cs => p.long cs
    | '-' :: c :: _ => p.short c
    | _ => p.value s

end Progress

def Arguments.parse (args : List String) : Except Halt Arguments := do
  let p ← args.foldlM Progress.next {}
  let p ← Progress.orHalt p.settle
  return p.arguments

/-- The settings with what the command line sets over them. -/
def Arguments.override (a : Arguments) (s : Settings) : Settings :=
  { s with
    connection := { s.connection with
      host := a.host.getD s.connection.host,
      tcpPort := a.tcpPort.getD s.connection.tcpPort },
    resolver := { s.resolver with
      backtraceFrames := a.frames.getD s.resolver.backtraceFrames } }

end RemoteInspector.Inspect
