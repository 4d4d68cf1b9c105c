import RemoteInspector.Number.Shortest

/-!
JSON values. An object lists its members in ascending order of their names, each name once; `put`
keeps it so. A number is an integer of 64 bits, signed or unsigned, or a double-precision number.
-/

namespace RemoteInspector

/-- A JSON number: an integer from `-2 ^ 63` to `2 ^ 64 - 1`, or a real. -/
inductive Json.Number where
  | integer (n : Int)
  | real (x : Binary64)
  deriving DecidableEq, Inhabited, Repr

inductive Json where
  | null
  | bool (b : Bool)
  | number (n : Json.Number)
  | string (s : String)
  | array (items : List Json)
  | object (members : List (String × Json))
  deriving Inhabited

namespace Json

namespace Number

def toUInt64? : Number → Option UInt64
  | .integer n => if 0 ≤ n ∧ n < UInt64.size then some (UInt64.ofNat n.toNat) else none
  | .real _ => none

def ofNat (n : Nat) : Number := .integer n

/-- An integer by its digits, a real by its shortest text. -/
def text : Number → String
  | .integer n => toString n
  | .real x => x.compactText

end Number

/-- Members of an object with `name` set to `value`, in ascending order of names. -/
def put (name : String) (value : Json) : List (String × Json) → List (String × Json)
  | [] => [(name, value)]
  | (n, v) :: rest =>
    if name < n then (name, value) :: (n, v) :: rest
    else if name = n then (name, value) :: rest
    else (n, v) :: put name value rest

/-- The members of an object written in any order; the last of a repeated name counts. -/
def ofMembers (members : List (String × Json)) : Json :=
  .object (members.foldl (fun all (name, value) => put name value all) [])

def get? (name : String) : Json → Option Json
  | .object members => members.lookup name
  | _ => none

def isObject : Json → Bool
  | .object _ => true
  | _ => false

def string? : Json → Option String
  | .string s => some s
  | _ => none

def array? : Json → Option (List Json)
  | .array items => some items
  | _ => none

def uint64? : Json → Option UInt64
  | .number n => n.toUInt64?
  | _ => none

def ofUInt64 (n : UInt64) : Json := .number (.integer n.toNat)

/-- The text of a value that is neither a list nor an object: a string as it is, all else as
written. -/
def scalarText? : Json → Option String
  | .string s => some s
  | .number n => some n.text
  | .bool b => some (if b then "true" else "false")
  | .null => some "null"
  | .array _ | .object _ => none

/-! ### Equality

It cannot be derived, since values stand in lists inside of values. -/

mutual

def same : Json → Json → Bool
  | .null, .null => true
  | .bool a, .bool b => a == b
  | .number a, .number b => a == b
  | .string a, .string b => a == b
  | .array vs, .array ws => sameItems vs ws
  | .object vs, .object ws => sameMembers vs ws
  | _, _ => false

def sameItems : List Json → List Json → Bool
  | [], [] => true
  | v :: vs, w :: ws => same v w && sameItems vs ws
  | _, _ => false

def sameMembers : List (String × Json) → List (String × Json) → Bool
  | [], [] => true
  | (k, v) :: vs, (l, w) :: ws => k == l && same v w && sameMembers vs ws
  | _, _ => false

end

mutual

theorem same_iff : (v w : Json) → (same v w = true ↔ v = w)
  | .array vs, w => by cases w <;> simp [same, sameItems_iff vs]
  | .object vs, w => by cases w <;> simp [same, sameMembers_iff vs]
  | .null, w => by cases w <;> simp [same]
  | .bool _, w => by cases w <;> simp [same]
  | .number _, w => by cases w <;> simp [same]
  | .string _, w => by cases w <;> simp [same]

theorem sameItems_iff : (vs ws : List Json) → (sameItems vs ws = true ↔ vs = ws)
  | [], ws => by cases ws <;> simp [sameItems]
  | v :: vs, ws => by cases ws <;> simp [sameItems, same_iff v, sameItems_iff vs]

theorem sameMembers_iff : (vs ws : List (String × Json)) → (sameMembers vs ws = true ↔ vs = ws)
  | [], ws => by cases ws <;> simp [sameMembers]
  | (_, _) :: _, [] => by simp [sameMembers]
  | (_, v) :: vs, (_, _) :: _ => by simp [sameMembers, same_iff v, sameMembers_iff vs]

end

instance : DecidableEq Json := fun v w => decidable_of_iff _ (same_iff v w)

end Json

end RemoteInspector
