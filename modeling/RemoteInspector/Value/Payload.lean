import RemoteInspector.Json.Basic
import RemoteInspector.Text.Digits
import RemoteInspector.Value.ValueType

/-!
Payloads: what the machine reports about the referent of one handle. The same record serves entries
of lookup replies, side-loaded references and values inlined in a backtrace.
-/

namespace RemoteInspector

/-- The machine's number for a remote object, good for one suspension. -/
abbrev Handle := UInt64

structure PropertyRef where
  name : String
  handle : Handle
  deriving DecidableEq, Inhabited, Repr

structure Payload where
  handle : Option Handle := none
  tag : Option String := none
  text : Option String := none
  className : Option String := none
  properties : List PropertyRef := []
  deriving DecidableEq, Inhabited, Repr

namespace Payload

def isError (p : Payload) : Bool := p.tag == some "error"

def valueType? (p : Payload) : Option ValueType := ValueType.ofTag? p.tag p.className

def failure (handle : Option Handle) (message : Option String) : Payload :=
  { handle := handle, tag := some "error", text := message }

def handle? : Json → Option Handle
  | .number n => n.toUInt64?
  | .string s => (Text.readUInt64 s).toOption
  | _ => none

/-- The name of a property; array indices come as numbers. -/
def propertyName? : Json → Option String
  | .string s => some s
  | .number n => some n.text
  | _ => none

/-- The property that one entry of a property list describes, if it has both a name and a
handle. -/
def propertyOfJson? (v : Json) : Option PropertyRef := do
  let name ← (v.get? "name").bind propertyName?
  let handle ← (v.get? "ref").bind handle?
  pure ⟨name, handle⟩

def propertiesOfJson (v : Json) : List PropertyRef :=
  (((v.get? "properties").bind Json.array?).getD []).filterMap propertyOfJson?

/-- The tags that serve as text where none is given. -/
def tagAsText? (tag : Option String) : Option String :=
  tag.filter fun t => t == "undefined" || t == "null"

/-- The payload that an object describes. The text is the given one, else the scalar value as
written. -/
def ofJson? (v : Json) : Option Payload :=
  if v.isObject then
    let tag := (v.get? "type").bind Json.string?
    some {
      handle := ((v.get? "handle").bind handle?).or ((v.get? "ref").bind handle?)
      tag := tag
      text := ((v.get? "text").bind Json.string?).or
        (((v.get? "value").bind Json.scalarText?).or (tagAsText? tag))
      className := (v.get? "className").bind Json.string?
      properties := propertiesOfJson v }
  else none

def ofRefs (refs : List Json) : List Payload := refs.filterMap ofJson?

end Payload

end RemoteInspector
