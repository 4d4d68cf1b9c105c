import RemoteInspector.Json.Mismatch
import RemoteInspector.Number.Shortest
import RemoteInspector.Settings.Basic
import RemoteInspector.Text.Redacted
import RemoteInspector.Text.Utf8
import RemoteInspector.Toml.Document

/-!
Settings read from a TOML document. Every group and every field may be left out; a name that is not
known is an error. A group is written as a table of its fields or as an array of their values in
order. Messages do not show quoted texts, so they do not tell what a setting was given.
-/

namespace RemoteInspector.Settings

open Toml (Item Entries)

inductive Fault where
  | mismatch (m : Mismatch)
  /-- A choice is given by something that is neither a name nor a table. -/
  | notChoice
  /-- A choice is given by an empty table, or by one with several keys. -/
  | noChoice
  | manyChoices
  /-- The name of a choice has something beside it. -/
  | burdened (by_ : Item)
  deriving DecidableEq

/-- What is said of something beside the name of a choice: only an empty table or array is none. -/
def burdenText : Item → String
  | .tables _ => "expected empty array"
  | .array _ | .table _ _ => "expected empty table"
  | other => "expected table, found " ++ other.kind

def Fault.message : Fault → String
  | .mismatch m => m.message
  | .notChoice => "wanted string or table"
  | .noChoice => "wanted exactly 1 element, found 0 elements"
  | .manyChoices => "wanted exactly 1 element, more than 1 element"
  | .burdened item => burdenText item

def found : Item → Found
  | .string s => .string s
  | .integer n => .integer n
  | .real x => .real x.positionalText
  | .boolean b => .bool b
  | .moment | .table _ _ => .map
  | .array _ | .tables _ => .sequence

abbrev Change (α : Type) := Item → α → Except Fault α

def wrongKind {α : Type} (wanted : String) (v : Item) : Except Fault α :=
  .error (.mismatch (.wrongType (found v) wanted))

def text {α : Type} (wanted : String) (set : String → α → α) : Change α
  | .string s, a => .ok (set s a)
  | v, _ => wrongKind wanted v

def truth {α : Type} (set : Bool → α → α) : Change α
  | .boolean b, a => .ok (set b a)
  | v, _ => wrongKind "a boolean" v

def count {α : Type} (limit : Nat) (wanted : String) (set : Nat → α → α) : Change α
  | .integer n, a =>
    if 0 ≤ n ∧ n.natAbs < limit then .ok (set n.natAbs a)
    else .error (.mismatch (.wrongValue (.integer n) wanted))
  | v, _ => wrongKind wanted v

def modes : List (String × SendMode) := [("sync", .sync), ("async", .async)]

def modeNamed (name : String) : Except Fault SendMode :=
  match modes.lookup name with
  | some m => .ok m
  | none => .error (.mismatch (.unknownVariant name (modes.map (·.1))))

/-- A mode, by its name or as the only key of a table, which then must hold nothing. -/
def readMode : Item → Except Fault SendMode
  | .string name => modeNamed name
  | .table _ [] => .error .noChoice
  | .table _ [(name, v)] => do
    let mode ← modeNamed name
    match v with
    | .table _ [] | .array [] | .tables [] => return mode
    | v => .error (.burdened v)
  | .table _ _ => .error .manyChoices
  | _ => .error .notChoice

abbrev Fields (α : Type) := List (String × Change α)

/-- Sets fields by name, in the order in which they are written. -/
def setByName {α : Type} (fields : Fields α) : List (String × Item) → α → Except Fault α
  | [], a => .ok a
  | (name, v) :: rest, a => do
    match fields.lookup name with
    | none => .error (.mismatch (.unknownField name (fields.map (·.1))))
    | some change => setByName fields rest (← change v a)

/-- Sets fields in order; values beyond the last field do not count. -/
def setInOrder {α : Type} : Fields α → List Item → α → Except Fault α
  | (_, change) :: fields, v :: rest, a => do setInOrder fields rest (← change v a)
  | _, _, a => .ok a

/-- The only field of a date or time. -/
def momentField : String := "$__toml_private_datetime"

def group {α : Type} (title : String) (fields : Fields α) : Change α
  | .table _ es, a => setByName fields es a
  | .moment, _ => .error (.mismatch (.unknownField momentField (fields.map (·.1))))
  | .array items, a => setInOrder fields items a
  | .tables all, a => setInOrder fields (all.map (Item.table .headed)) a
  | v, _ => wrongKind ("struct " ++ title) v

def loggingFields : Fields Logging :=
  [("level", text "a string" fun s g => { g with level := s }),
    ("json", truth fun b g => { g with json := b }),
    ("stderr", truth fun b g => { g with stderr := b }),
    ("file", text "path string" fun s g => { g with file := some s })]

def connectionFields : Fields Connection :=
  [("host", text "a string" fun s g => { g with host := s }),
    ("port", count UInt16.size "u16" fun n g => { g with tcpPort := UInt16.ofNat n }),
    ("connect_timeout_ms",
      count UInt64.size "u64" fun n g => { g with connectTimeoutMs := UInt64.ofNat n }),
    ("reply_timeout_ms",
      count UInt64.size "u64" fun n g => { g with replyTimeoutMs := UInt64.ofNat n })]

def resolverFields : Fields Resolver :=
  [("send_mode", fun v g => do return { g with mode := ← readMode v }),
    ("inline_refs", truth fun b g => { g with inlineRefs := b }),
    ("backtrace_frames",
      count UInt32.size "u32" fun n g => { g with backtraceFrames := UInt32.ofNat n })]

def allFields : Fields Settings :=
  [("logging", fun v s => do
      return { s with logging := ← group "LoggingConfig" loggingFields v {} }),
    ("connection", fun v s => do
      return { s with connection := ← group "ConnectionConfig" connectionFields v {} }),
    ("resolver", fun v s => do
      return { s with resolver := ← group "ResolverConfig" resolverFields v {} })]

def ofEntries (es : Entries) : Except Fault Settings := setByName allFields es {}

inductive FileFault where
  | missing
  | directory
  | notText
  deriving DecidableEq, Repr

def FileFault.message : FileFault → String
  | .missing => "No such file or directory (os error 2)"
  | .directory => "Is a directory (os error 21)"
  | .notText => "stream did not contain valid UTF-8"

inductive LoadError where
  | file (path : String) (fault : FileFault)
  /-- The text is no TOML document. -/
  | form (fault : Toml.Fault)
  /-- The document does not hold settings. -/
  | content (fault : Fault)

/-- The wording of an error, without quoted texts. -/
def LoadError.message : LoadError → String
  | .file path fault => "failed to read config file " ++ path ++ ": " ++ fault.message
  | .form fault => "failed to parse toml config: " ++ Text.redactLiteralsText fault.message
  | .content fault => "failed to parse toml config: " ++ Text.redactLiteralsText fault.message

def parse (s : String) : Except LoadError Settings :=
  match Toml.parse s with
  | .error f => .error (.form f)
  | .ok es =>
    match ofEntries es with
    | .error f => .error (.content f)
    | .ok s => .ok s

def load (path : String) (content : Except FileFault Bytes) : Except LoadError Settings :=
  match content with
  | .error f => .error (.file path f)
  | .ok bytes =>
    match Text.decodeUtf8? bytes with
    | none => .error (.file path .notText)
    | some s => parse s

end RemoteInspector.Settings
