import RemoteInspector.Json.Printer
import RemoteInspector.Json.Record
import RemoteInspector.Json.Basic

/-!
Remote objects of the inspector protocol. Objects are named by texts of the machine's choosing,
primitive values come inline. A property listing and the result of a call bring such objects, each
with a mark for values that were thrown.
-/

namespace RemoteInspector

/-- A remote value as the inspector protocol describes it. -/
structure RemoteObject where
  kind : String
  subtype : Option String := none
  className : Option String := none
  description : Option String := none
  objectId : Option String := none
  value : Option Json := none
  deriving Inhabited

namespace RemoteObject

def fields : List Json.Field :=
  [⟨"type", Json.checking Json.expectString, true⟩,
    Json.optionalField "subtype" Json.expectString,
    Json.optionalField "className" Json.expectString,
    Json.optionalField "description" Json.expectString,
    Json.optionalField "objectId" Json.expectString,
    Json.optionalField "value" Except.ok]

def ofMembers (members : List (String × Json)) : RemoteObject :=
  let text (name : String) := (Json.present? members name).bind Json.string?
  { kind := (text "type").getD ""
    subtype := text "subtype"
    className := text "className"
    description := text "description"
    objectId := text "objectId"
    value := Json.present? members "value" }

def ofJson (v : Json) : Except Mismatch RemoteObject :=
  (Json.readRecord "RemoteObject" fields v).map ofMembers

def members (o : RemoteObject) : List (String × Json) :=
  ("type", Json.string o.kind) ::
    ((o.subtype.map fun v => ("subtype", Json.string v)).toList ++
    (o.className.map fun v => ("className", Json.string v)).toList ++
    (o.description.map fun v => ("description", Json.string v)).toList ++
    (o.objectId.map fun v => ("objectId", Json.string v)).toList ++
    (o.value.map fun v => ("value", v)).toList)

def text (o : RemoteObject) : String := Json.text (.object o.members)

end RemoteObject

structure PropertyDescriptor where
  name : String
  value : Option RemoteObject := none
  wasThrown : Option Bool := none
  deriving Inhabited

namespace PropertyDescriptor

def fields : List Json.Field :=
  [⟨"name", Json.checking Json.expectString, true⟩,
    Json.optionalField "value" RemoteObject.ofJson,
    Json.optionalField "wasThrown" Json.expectBool]

def ofMembers (members : List (String × Json)) : PropertyDescriptor :=
  { name := ((Json.present? members "name").bind Json.string?).getD ""
    value := (Json.present? members "value").bind fun v => (RemoteObject.ofJson v).toOption
    wasThrown := (Json.present? members "wasThrown").bind fun v => (Json.expectBool v).toOption }

def ofJson (v : Json) : Except Mismatch PropertyDescriptor :=
  (Json.readRecord "PropertyDescriptor" fields v).map ofMembers

end PropertyDescriptor

structure PropertyListing where
  result : List PropertyDescriptor
  deriving Inhabited

namespace PropertyListing

def descriptors (v : Json) : Except Mismatch (List PropertyDescriptor) := do
  let items ← Json.expectArray v
  items.mapM PropertyDescriptor.ofJson

def fields : List Json.Field := [⟨"result", Json.checking descriptors, true⟩]

def ofMembers (members : List (String × Json)) : PropertyListing :=
  ⟨((Json.present? members "result").bind fun v => (descriptors v).toOption).getD []⟩

def ofJson (v : Json) : Except Mismatch PropertyListing :=
  (Json.readRecord "GetPropertiesData" fields v).map ofMembers

end PropertyListing

structure CallResult where
  result : RemoteObject
  wasThrown : Option Bool := none
  deriving Inhabited

namespace CallResult

def fields : List Json.Field :=
  [⟨"result", Json.checking RemoteObject.ofJson, true⟩,
    Json.optionalField "wasThrown" Json.expectBool]

def ofMembers (members : List (String × Json)) : CallResult :=
  { result := ((Json.present? members "result").bind
      fun v => (RemoteObject.ofJson v).toOption).getD default
    wasThrown := (Json.present? members "wasThrown").bind fun v => (Json.expectBool v).toOption }

def ofJson (v : Json) : Except Mismatch CallResult :=
  (Json.readRecord "CallFunctionOnData" fields v).map ofMembers

end CallResult

end RemoteInspector
