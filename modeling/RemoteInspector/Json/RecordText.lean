import RemoteInspector.Json.Skip

/-!
Records read straight from texts: as an object, whose unknown members are passed over, or as an
array of the fields in their order, in which the last ones may be missing. A field that is named
twice is a fault, reported behind the second name.
-/

namespace RemoteInspector.Json

abbrev FieldReaders := List (String × Reader Json)

/-- The place where a repeated name is reported: behind the blanks that follow it, and behind the
end of the object if that comes at once. -/
def behindName (s : Bytes) : Bytes :=
  match skipBlanks s with
  | b :: r => if b = 125 then r else b :: r
  | [] => []

/-- A member of a record from the byte after the quote of its name; unknown ones leave `seen` as
it is. -/
def readField (fields : FieldReaders) (seen : List (String × Json)) (s : Bytes) :
    Except Fault (List (String × Json) × Bytes) := do
  let (name, r) ← readStringBody s
  match fields.lookup name with
  | some reader =>
    if (seen.lookup name).isSome then
      atHere (.mismatch (.duplicateField name)) (behindName r)
    else do
      let r ← readColon r
      let (v, r) ← reader r
      pure ((name, v) :: seen, r)
  | none => do
    let r ← readColon r
    let r ← skipValue r
    pure (seen, r)

def readFields (fields : FieldReaders) :
    (fuel : Nat) → (seen : List (String × Json)) → Reader (List (String × Json))
  | 0, _, s => atHere .unfinishedObject s
  | fuel + 1, seen, s => do
    match ← nextMember s with
    | .done r => pure (seen, r)
    | .item r => do
      let (seen, r) ← readField fields seen r
      readFields fields fuel seen r

def readFieldsBody (fields : FieldReaders) (s : Bytes) :
    Except Fault (List (String × Json) × Bytes) := do
  match ← firstMember s with
  | .done r => pure ([], r)
  | .item r => do
    let (seen, r) ← readField fields [] r
    readFields fields r.length.succ seen r

/-- The end of a record written as an array, all of whose fields have been read. -/
def readPositionsEnd (s : Bytes) : Except Fault Bytes :=
  match skipBlanks s with
  | [] => atNext .unfinishedList []
  | b :: r =>
    if b = 93 then .ok r
    else if b = 44 then
      match skipBlanks r with
      | c :: r => if c = 93 then atNext .trailingComma (c :: r) else atNext .trailingCharacters (c :: r)
      | [] => atNext .trailingCharacters []
    else atNext .trailingCharacters (b :: r)

def readPositionsText : FieldReaders → (seen : List (String × Json)) →
    Reader (List (String × Json))
  | [], seen, s => do
    let r ← readPositionsEnd s
    pure (seen, r)
  | (name, reader) :: fields, seen, s => do
    match ← nextItem s with
    | .done r => pure (seen, r)
    | .item r => do
      let (v, r) ← reader r
      readPositionsText fields ((name, v) :: seen) r

def readPositionsBody (fields : FieldReaders) (s : Bytes) :
    Except Fault (List (String × Json) × Bytes) :=
  match fields with
  | [] => readPositionsText [] [] s
  | (name, reader) :: fields => do
    match ← firstItem s with
    | .done r => pure ([], r)
    | .item r => do
      let (v, r) ← reader r
      readPositionsText fields [(name, v)] r

def readRecordText (record : String) (fields : FieldReaders) (s : Bytes) :
    Except Fault (List (String × Json) × Bytes) := do
  let (b, r) ← startValue s
  if b = 91 then readPositionsBody fields r
  else if b = 123 then readFieldsBody fields r
  else findOther ("struct " ++ record) (b :: r)

end RemoteInspector.Json
