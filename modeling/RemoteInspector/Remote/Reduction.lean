import RemoteInspector.Remote.Object
import RemoteInspector.Remote.Table
import RemoteInspector.Value.Payload

/-!
Remote objects reduced to payloads, so that both protocols are shown alike. A named object takes
the handle of its name, every other value a fresh one. Thrown values become failures that carry
their text.
-/

namespace RemoteInspector

namespace RemoteObject

def tagAndClass (o : RemoteObject) : String × Option String :=
  if o.kind = "object" then
    if o.subtype = some "null" then ("null", none)
    else if o.subtype = some "array" then ("object", some "Array")
    else if o.subtype = some "date" then ("object", some "Date")
    else if o.subtype = some "error" then ("object", some "Error")
    else if o.subtype = some "regexp" then ("regexp", o.className)
    else ("object", o.className)
  else (o.kind, o.className)

/-- The text of the value, else the description; `undefined` and `null` name themselves. -/
def displayText? (o : RemoteObject) : Option String :=
  ((o.value.bind Json.scalarText?).or o.description).or (Payload.tagAsText? (some o.tagAndClass.1))

def handle (o : RemoteObject) (t : ObjectTable) : Handle × ObjectTable :=
  match o.objectId with
  | some name => t.intern name
  | none => t.fresh

def reduce (o : RemoteObject) (t : ObjectTable) : Payload × ObjectTable :=
  let (h, t) := o.handle t
  ({ handle := some h, tag := some o.tagAndClass.1, text := o.displayText?,
     className := o.tagAndClass.2 }, t)

end RemoteObject

namespace PropertyDescriptor

def reduce (d : PropertyDescriptor) (t : ObjectTable) : Option Payload × ObjectTable :=
  match d.value with
  | none => (none, t)
  | some value =>
    if d.wasThrown = some true then
      let (h, t) := t.fresh
      (some (Payload.failure (some h) value.description), t)
    else
      let (p, t) := value.reduce t
      (some p, t)

end PropertyDescriptor

namespace PropertyListing

def reduceAll : List PropertyDescriptor → ObjectTable →
    (List PropertyRef × List Payload) × ObjectTable
  | [], t => (([], []), t)
  | d :: ds, t =>
    let (p, t) := d.reduce t
    let ((refs, payloads), t) := reduceAll ds t
    match p with
    | none => ((refs, payloads), t)
    | some p =>
      match p.handle with
      | none => ((refs, payloads), t)
      | some h => ((⟨d.name, h⟩ :: refs, p :: payloads), t)

def reduce (data : PropertyListing) (parent : RemoteObject) (t : ObjectTable) :
    (Payload × List Payload) × ObjectTable :=
  let (p, t) := parent.reduce t
  let ((refs, payloads), t) := reduceAll data.result t
  (({ p with properties := refs }, payloads), t)

end PropertyListing

namespace CallResult

def reduce (data : CallResult) (t : ObjectTable) : Payload × ObjectTable :=
  let (p, t) := data.result.reduce t
  if data.wasThrown.getD false then (Payload.failure p.handle p.text, t) else (p, t)

end CallResult

end RemoteInspector
