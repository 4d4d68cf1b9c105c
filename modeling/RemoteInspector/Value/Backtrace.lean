import RemoteInspector.Value.Payload
import RemoteInspector.Wire.WireError

/-!
Backtraces: the frames of a suspended call stack with their named bindings. Frame and source
numbers have 32 bits and are reduced to that width.
-/

namespace RemoteInspector

structure Binding where
  name : String
  value : Payload
  deriving DecidableEq, Inhabited, Repr

structure StackFrame where
  index : UInt32
  function : String
  line : Option UInt32 := none
  column : Option UInt32 := none
  source : Option String := none
  arguments : List Binding := []
  locals : List Binding := []
  deriving DecidableEq, Inhabited, Repr

namespace StackFrame

/-- A binding of a frame; one without a name is left out, one without a value has an empty
payload. -/
def bindingOfJson? (v : Json) : Option Binding := do
  let name ← (v.get? "name").bind Json.string?
  pure ⟨name, ((v.get? "value").bind Payload.ofJson?).getD {}⟩

def bindingsOfJson (heading : String) (v : Json) : List Binding :=
  (((v.get? heading).bind Json.array?).getD []).filterMap bindingOfJson?

def anonymous : String := "<anonymous>"

/-- The name of the function of a frame: its own, else an inferred one. -/
def functionOfJson (v : Json) : String :=
  let name (member : String) : Option String :=
    (((v.get? "func").bind fun f => f.get? member).bind Json.string?).filter fun n => !n.isEmpty
  ((name "name").or (name "inferredName")).getD anonymous

def number? (member : String) (v : Json) : Option UInt32 :=
  ((v.get? member).bind Json.uint64?).map (·.toUInt32)

/-- The frame at a position of the list of frames; the position is its index if it reports none. -/
def ofJson (position : Nat) (v : Json) : StackFrame where
  index := (number? "index" v).getD (UInt32.ofNat position)
  function := functionOfJson v
  line := number? "line" v
  column := number? "column" v
  source := (v.get? "sourceLineText").bind Json.string?
  arguments := bindingsOfJson "arguments" v
  locals := bindingsOfJson "locals" v

/-- The frames of a backtrace; an empty stack has no list of frames at all. -/
def listOfJson (body : Json) : Except WireError (List StackFrame) :=
  match body.get? "frames" with
  | none => .ok []
  | some (.array frames) => .ok (frames.mapIdx ofJson)
  | some _ => .error (.protocol "backtrace `frames` is not an array")

end StackFrame

end RemoteInspector
