import RemoteInspector.Value.Payload

/-!
What is known so far about one remote value. At first there is a name and mostly a handle; payloads
add the type and the text, and for compound values the class name and the properties.
-/

namespace RemoteInspector

structure Facts where
  name : String
  handle : Option Handle := none
  valueType : Option ValueType := none
  text : Option String := none
  className : Option String := none
  properties : Option (List PropertyRef) := none
  deriving DecidableEq, Inhabited, Repr

namespace Facts

def retrievalFailed : String := "An error occurred while retrieving the value."

def malformed : String := "<Error>"

def isCompound (f : Facts) : Bool := f.valueType.any (·.isCompound)

def isScalar (f : Facts) : Bool := f.valueType.any fun t => !t.isCompound

def setType (f : Facts) (t : ValueType) : Facts := { f with valueType := some t }

/-- Sets the text, except on compound values. -/
def setText (f : Facts) (text : String) : Facts :=
  if f.isCompound then f else { f with text := some text }

/-- Sets class name and properties, except on scalars. -/
def setProperties (f : Facts) (className : Option String) (properties : List PropertyRef) : Facts :=
  if f.isScalar then f else { f with className := className, properties := some properties }

/-- Takes the handle of a payload if none is known. -/
def adoptHandle (f : Facts) (handle : Option Handle) : Facts :=
  if f.handle.isNone then { f with handle := handle } else f

/-- Adds what a payload reports. A compound payload brings its properties only if `withProperties`
is set and there are any; a failure is shown as a string, and so is a payload without a usable type
or text. -/
def fill (f : Facts) (p : Payload) (withProperties : Bool) : Facts :=
  let f := f.adoptHandle p.handle
  if p.isError then (f.setType .string).setText (p.text.getD retrievalFailed)
  else
    match p.valueType?, p.text with
    | some t, text =>
      if t.isCompound then
        let f := { f.setType t with className := p.className }
        if withProperties && !p.properties.isEmpty then f.setProperties p.className p.properties
        else f
      else
        match text with
        | some text => (f.setType t).setText text
        | none => (f.setType .string).setText malformed
    | none, _ => (f.setType .string).setText malformed

end Facts

end RemoteInspector
