import RemoteInspector.Json.Reader

/-!
Values that are passed over. Their form is checked, but strings need not be UTF-8, numbers have no
range, and nesting has no limit: the open lists and objects are kept in a list of their own.
-/

namespace RemoteInspector.Json

inductive Bracket where
  | list
  | object
  deriving DecidableEq, Repr

def Bracket.closing : Bracket → UInt8
  | .list => 93
  | .object => 125

def Bracket.unfinished : Bracket → Reason
  | .list => .unfinishedList
  | .object => .unfinishedObject

def Bracket.expectedEnd : Bracket → Reason
  | .list => .expectedListEnd
  | .object => .expectedObjectEnd

/-- Closes brackets behind a value until a comma comes or none is open; what is left open then
expects another item. -/
def skipClosings : List Bracket → Bytes → Except Fault (List Bracket × Bytes)
  | [], s => .ok ([], s)
  | open_ :: outer, s =>
    match skipBlanks s with
    | [] => atNext open_.unfinished []
    | b :: r =>
      if b = 44 then .ok (open_ :: outer, r)
      else if b = open_.closing then skipClosings outer r
      else atNext open_.expectedEnd (b :: r)

def skipName : List Bracket → Bytes → Except Fault Bytes
  | .object :: _, s =>
    match skipBlanks s with
    | [] => atNext .unfinishedObject []
    | b :: r =>
      if b = 34 then do
        let r ← skipStringBody r.length.succ r
        readColon r
      else atNext .keyNotString (b :: r)
  | _, s => .ok s

/-- What stands behind a bracket that has just been opened: its end or its first item. -/
def skipOpening (bracket : Bracket) (outer : List Bracket) (s : Bytes) :
    Except Fault (List Bracket × Bytes) :=
  match skipBlanks s with
  | [] => atNext bracket.unfinished []
  | b :: r =>
    if b = bracket.closing then skipClosings outer r
    else .ok (bracket :: outer, b :: r)

def skipStart (outer : List Bracket) (s : Bytes) : Except Fault (List Bracket × Bytes) :=
  match skipBlanks s with
  | [] => atNext .unfinishedValue []
  | b :: r =>
    if b = 110 then do let r ← readWord restOfNull r; skipClosings outer r
    else if b = 116 then do let r ← readWord restOfTrue r; skipClosings outer r
    else if b = 102 then do let r ← readWord restOfFalse r; skipClosings outer r
    else if b = 45 ∨ isDigit b then do let r ← skipNumber (b :: r); skipClosings outer r
    else if b = 34 then do let r ← skipStringBody r.length.succ r; skipClosings outer r
    else if b = 91 then skipOpening .list outer r
    else if b = 123 then skipOpening .object outer r
    else atNext .expectedValue (b :: r)

/-- Passes over a value inside of `outer`, and over all that follows it up to the end of the
outermost value. Every round takes a byte or more. -/
def skipInside : (fuel : Nat) → List Bracket → Bytes → Except Fault Bytes
  | 0, _, s => atNext .unfinishedValue s
  | fuel + 1, outer, s => do
    match ← skipStart outer s with
    | ([], r) => pure r
    | (left, r) => do
      let r ← skipName left r
      skipInside fuel left r

def skipValue (s : Bytes) : Except Fault Bytes := skipInside s.length.succ [] s

end RemoteInspector.Json
