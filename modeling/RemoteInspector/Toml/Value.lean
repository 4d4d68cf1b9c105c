import RemoteInspector.Toml.Moment
import RemoteInspector.Toml.Table

/-!
Values. The first character tells the kind. Arrays and inline tables may be nested up to a depth;
the reader of a value recurs on how many levels are left.
-/

namespace RemoteInspector.Toml

open Reader

def noValue {α : Type} : Reader α → Reader α :=
  fun r => naming "string" (seeking (.char '\'') (seeking (.char '"') r))

def arrayItems (value : Reader Item) : Reader (List Item) := do
  if (← get).head? = some ']' then return []
  let items ← optional <| separatedBy ',' do
    filler
    let v ← value
    filler
    return v
  if items.isSome then
    let _ ← optional (char ',')
  filler
  return items.getD []

def array (value : Reader Item) : Reader Item := do
  let _ ← char '['
  let items ← firmly (arrayItems value)
  let _ ← naming "array" (seeking (.char ']') (firmly (char ']')))
  return .array items

def equals : Reader Unit := do
  let _ ← seeking (.char '=') (seeking (.char '.') (char '='))

def inlinePair (value : Reader Item) : Reader (List String × Item) := do
  let key ← dottedKey
  firmly do
    equals
    spaces
    let v ← value
    spaces
    return (key, v)

def inlineEntries : List (List String × Item) → Entries → Except Objection Entries
  | [], es => .ok es
  | (keys, v) :: rest, es => do
    let es ← es.addAt .inlineKey .repeated keys.dropLast (keys.getLast?.getD "") v .inline
    inlineEntries rest es

def inlineTable (value : Reader Item) : Reader Item := do
  let _ ← char '\x7b'
  let es ← firmly do
    let pairs ← optional (separatedBy ',' (inlinePair value))
    spaces
    match inlineEntries (pairs.getD []) [] with
    | .ok es => return es
    | .error o => object o
  let _ ← naming "inline table" (seeking (.char '\x7d') (firmly (char '\x7d')))
  return .table .inline es

/-- A value whose arrays and inline tables hold what `inner` reads, or are refused. -/
def valueWith (inner : Option (Reader Item)) : Reader Item := do
  let nested (bracketed : Reader Item → Reader Item) : Reader Item :=
    match inner with
    | none => firmly (object .tooDeep)
    | some value => bracketed value
  match (← get).head? with
  | none => throw {}
  | some '"' | some '\'' => .string <$> anyString
  | some '[' => nested array
  | some '\x7b' => nested inlineTable
  | some '_' => seeking (.thing "leading digit") integer
  | some '.' => seeking (.thing "leading digit") realNumber
  | some 't' => noValue do word ['t', 'r', 'u', 'e']; return .boolean true
  | some 'f' => noValue do word ['f', 'a', 'l', 's', 'e']; return .boolean false
  | some 'i' => noValue (.real <$> infinityWord)
  | some 'n' => noValue (.real <$> nanWord)
  | some c =>
    if isSign c || c.isDigit then orElse moment (orElse realNumber integer)
    else noValue (throw {})

def value : (room : Nat) → Reader Item
  | 0 => valueWith none
  | room + 1 => valueWith (some (value room))

end RemoteInspector.Toml
