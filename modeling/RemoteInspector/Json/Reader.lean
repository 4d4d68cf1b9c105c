import RemoteInspector.Json.Numeral
import RemoteInspector.Json.StringText

/-!
JSON values read from texts. Lists and objects are read by one loop each, which takes the reader
of an item as a parameter; the reader of a value recurs on how many levels of nesting are left.
Where a record expects a value of one kind, `readUInt64`, `readString`, `readBool` and `readList`
read that kind and name what else they find.
-/

namespace RemoteInspector.Json

def isBlank (b : UInt8) : Bool := b == 32 || b == 10 || b == 9 || b == 13

def skipBlanks (s : Bytes) : Bytes := s.dropWhile isBlank

def readWord : (word : Bytes) → Bytes → Except Fault Bytes
  | [], s => .ok s
  | _ :: _, [] => atHere .unfinishedValue []
  | w :: ws, b :: r => if b = w then readWord ws r else atHere .expectedWord r

def restOfNull : Bytes := [117, 108, 108]
def restOfTrue : Bytes := [114, 117, 101]
def restOfFalse : Bytes := [97, 108, 115, 101]

inductive Next where
  | item (s : Bytes)
  | done (s : Bytes)

/-- The start of a list, from the byte after the bracket. -/
def firstItem (s : Bytes) : Except Fault Next :=
  match skipBlanks s with
  | [] => atNext .unfinishedList []
  | b :: r => if b = 93 then .ok (.done r) else .ok (.item (b :: r))

def nextItem (s : Bytes) : Except Fault Next :=
  match skipBlanks s with
  | [] => atNext .unfinishedList []
  | b :: r =>
    if b = 93 then .ok (.done r)
    else if b ≠ 44 then atNext .expectedListEnd (b :: r)
    else match skipBlanks r with
      | [] => atNext .unfinishedValue []
      | c :: r => if c = 93 then atNext .trailingComma (c :: r) else .ok (.item (c :: r))

/-- The items of a list behind the first; `seen` holds the items so far in reverse. -/
def readItems {α : Type} (item : Reader α) : (fuel : Nat) → (seen : List α) → Reader (List α)
  | 0, _, s => atHere .unfinishedList s
  | fuel + 1, seen, s =>
    match nextItem s with
    | .error f => .error f
    | .ok (.done r) => .ok (seen.reverse, r)
    | .ok (.item r) =>
      match item r with
      | .error f => .error f
      | .ok (v, r) => readItems item fuel (v :: seen) r

def readListBody {α : Type} (item : Reader α) (s : Bytes) : Except Fault (List α × Bytes) := do
  match ← firstItem s with
  | .done r => pure ([], r)
  | .item r => do
    let (v, r) ← item r
    readItems item r.length.succ [v] r

/-- The start of an object, from the byte after the brace; an item starts behind the quote of its
name. -/
def firstMember (s : Bytes) : Except Fault Next :=
  match skipBlanks s with
  | [] => atNext .unfinishedObject []
  | b :: r =>
    if b = 125 then .ok (.done r)
    else if b = 34 then .ok (.item r)
    else atNext .keyNotString (b :: r)

def nextMember (s : Bytes) : Except Fault Next :=
  match skipBlanks s with
  | [] => atNext .unfinishedObject []
  | b :: r =>
    if b = 125 then .ok (.done r)
    else if b ≠ 44 then atNext .expectedObjectEnd (b :: r)
    else match skipBlanks r with
      | [] => atNext .unfinishedValue []
      | c :: r =>
        if c = 34 then .ok (.item r)
        else if c = 125 then atNext .trailingComma (c :: r)
        else atNext .keyNotString (c :: r)

def readColon (s : Bytes) : Except Fault Bytes :=
  match skipBlanks s with
  | [] => atNext .unfinishedObject []
  | b :: r => if b = 58 then .ok r else atNext .expectedColon (b :: r)

def readMember (value : Reader Json) (s : Bytes) : Except Fault ((String × Json) × Bytes) := do
  let (name, r) ← readStringBody s
  let r ← readColon r
  let (v, r) ← value r
  pure ((name, v), r)

/-- The members of an object behind the first; `seen` holds the members so far. -/
def readMembers (value : Reader Json) :
    (fuel : Nat) → (seen : List (String × Json)) → Reader (List (String × Json))
  | 0, _, s => atHere .unfinishedObject s
  | fuel + 1, seen, s =>
    match nextMember s with
    | .error f => .error f
    | .ok (.done r) => .ok (seen, r)
    | .ok (.item r) =>
      match readMember value r with
      | .error f => .error f
      | .ok ((name, v), r) => readMembers value fuel (put name v seen) r

def readObjectBody (value : Reader Json) (s : Bytes) :
    Except Fault (List (String × Json) × Bytes) := do
  match ← firstMember s with
  | .done r => pure ([], r)
  | .item r => do
    let ((name, v), r) ← readMember value r
    readMembers value r.length.succ (put name v []) r

/-- A value inside of which `depth` levels may still be opened, less one. -/
def readValue : (depth : Nat) → Reader Json
  | 0, s => atNext .tooDeep s
  | depth + 1, s =>
    match skipBlanks s with
    | [] => atNext .unfinishedValue []
    | b :: r =>
      if b = 110 then (readWord restOfNull r).map fun r => (.null, r)
      else if b = 116 then (readWord restOfTrue r).map fun r => (.bool true, r)
      else if b = 102 then (readWord restOfFalse r).map fun r => (.bool false, r)
      else if b = 45 ∨ isDigit b then (readNumber (b :: r)).map fun (n, r) => (.number n, r)
      else if b = 34 then (readStringBody r).map fun (t, r) => (.string t, r)
      else if b = 91 then
        if depth = 0 then atNext .tooDeep (b :: r)
        else (readListBody (readValue depth) r).map fun (vs, r) => (.array vs, r)
      else if b = 123 then
        if depth = 0 then atNext .tooDeep (b :: r)
        else (readObjectBody (readValue depth) r).map fun (ms, r) => (.object ms, r)
      else atNext .expectedValue (b :: r)

/-- How deep a text may be nested, plus one. -/
def depthLimit : Nat := 128

def readAll {α : Type} (reader : Reader α) (s : Bytes) : Except Fault α := do
  let (v, r) ← reader s
  match skipBlanks r with
  | [] => pure v
  | r => atNext .trailingCharacters r

def parse (s : Bytes) : Except Fault Json := readAll (readValue depthLimit) s

/-- What is found at the start of a value that is not of the wanted kind. The text is read far
enough to name it. -/
def findOther {α : Type} (wanted : String) (s : Bytes) : Except Fault α := do
  let wrong (found : Found) (r : Bytes) := atHere (.mismatch (.wrongType found wanted)) r
  match s with
  | [] => atNext .expectedValue []
  | b :: r =>
    if b = 110 then do let r ← readWord restOfNull r; wrong .null r
    else if b = 116 then do let r ← readWord restOfTrue r; wrong (.bool true) r
    else if b = 102 then do let r ← readWord restOfFalse r; wrong (.bool false) r
    else if b = 45 ∨ isDigit b then do let (n, r) ← readNumber (b :: r); wrong n.found r
    else if b = 34 then do let (t, r) ← readStringBody r; wrong (.string t) r
    else if b = 91 then wrong .sequence (b :: r)
    else if b = 123 then wrong .map (b :: r)
    else atNext .expectedValue (b :: r)

def startValue (s : Bytes) : Except Fault (UInt8 × Bytes) :=
  match skipBlanks s with
  | [] => atNext .unfinishedValue []
  | b :: r => .ok (b, r)

def readUInt64 (s : Bytes) : Except Fault (Json × Bytes) := do
  let (b, r) ← startValue s
  if b = 45 ∨ isDigit b then do
    let (n, r) ← readNumber (b :: r)
    match n.toUInt64? with
    | some _ => pure (.number n, r)
    | none => atHere (.mismatch n.notUInt64) r
  else findOther "u64" (b :: r)

def readString (s : Bytes) : Except Fault (Json × Bytes) := do
  let (b, r) ← startValue s
  if b = 34 then do
    let (t, r) ← readStringBody r
    pure (.string t, r)
  else findOther "a string" (b :: r)

def readBool (s : Bytes) : Except Fault (Json × Bytes) := do
  let (b, r) ← startValue s
  if b = 116 then (readWord restOfTrue r).map fun r => (.bool true, r)
  else if b = 102 then (readWord restOfFalse r).map fun r => (.bool false, r)
  else findOther "a boolean" (b :: r)

def readList (depth : Nat) (s : Bytes) : Except Fault (Json × Bytes) := do
  let (b, r) ← startValue s
  if b = 91 then
    if depth = 0 then atNext .tooDeep (b :: r)
    else do
      let (vs, r) ← readListBody (readValue depth) r
      pure (.array vs, r)
  else findOther "a sequence" (b :: r)

def readOrNull (reader : Reader Json) (s : Bytes) : Except Fault (Json × Bytes) :=
  match skipBlanks s with
  | b :: r => if b = 110 then (readWord restOfNull r).map fun r => (.null, r) else reader (b :: r)
  | [] => reader []

end RemoteInspector.Json
