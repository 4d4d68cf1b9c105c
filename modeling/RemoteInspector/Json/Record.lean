import RemoteInspector.Json.Mismatch

/-!
Records read from JSON values. A record is written as an object, whose unknown members are
ignored, or as an array of its fields in their order, in which the last ones may be missing. The
result is the list of members that are there, every one of them checked.
-/

namespace RemoteInspector.Json

/-- A field of a record: how its value is checked, and whether it must be there. -/
structure Field where
  name : String
  check : Json → Except Mismatch Unit
  required : Bool := false

def checking {α : Type} (expect : Json → Except Mismatch α) (v : Json) : Except Mismatch Unit :=
  (expect v).map fun _ => ()

/-- A field that may be absent or `null`. -/
def optionalField {α : Type} (name : String) (expect : Json → Except Mismatch α) : Field :=
  ⟨name, checking (orNull expect), false⟩

/-- Checks the members of an object that belong to the record, in the object's order. -/
def checkMembers (fields : List Field) : List (String × Json) → Except Mismatch Unit
  | [] => .ok ()
  | (name, value) :: rest => do
    match fields.find? fun f => f.name = name with
    | some f => f.check value
    | none => pure ()
    checkMembers fields rest

def missingField? (fields : List Field) (members : List (String × Json)) : Option String :=
  (fields.find? fun f => f.required && (members.lookup f.name).isNone).map (·.name)

def recordWanted (record : String) (fields : List Field) : String :=
  "struct " ++ record ++ " with " ++ toString fields.length ++
    if fields.length = 1 then " element" else " elements"

/-- Checks the fields of a record against a list of values, position by position. -/
def readPositions (record : String) (all : List Field) :
    List Field → List Json → Except Mismatch (List (String × Json))
  | f :: fs, v :: vs => do
    f.check v
    let rest ← readPositions record all fs vs
    pure ((f.name, v) :: rest)
  | f :: fs, [] =>
    if f.required then
      .error (.wrongLength (all.length - (f :: fs).length) (recordWanted record all))
    else readPositions record all fs []
  | [], _ => .ok []

def readRecord (record : String) (fields : List Field) :
    Json → Except Mismatch (List (String × Json))
  | .object members => do
    checkMembers fields members
    match missingField? fields members with
    | some name => .error (.missingField name)
    | none => .ok members
  | .array items => do
    let members ← readPositions record fields fields items
    if fields.length < items.length then
      .error (.wrongLength items.length "fewer elements in array")
    else .ok members
  | v => .error (.wrongType v.found ("struct " ++ record))

def present? (members : List (String × Json)) (name : String) : Option Json :=
  match members.lookup name with
  | some .null => none
  | other => other

end RemoteInspector.Json
