import RemoteInspector.Json.Basic
import RemoteInspector.Text.Quoted

/-!
Values read under an expectation. A mismatch says what was found and what was wanted, or which
field of a record is missing, repeated or too much.
-/

namespace RemoteInspector

inductive Found where
  | null
  | bool (b : Bool)
  | integer (n : Int)
  | real (text : String)
  | string (s : String)
  | sequence
  | map
  deriving DecidableEq, Repr

def Found.text : Found → String
  | .null => "null"
  | .bool b => "boolean `" ++ (if b then "true" else "false") ++ "`"
  | .integer n => "integer `" ++ toString n ++ "`"
  | .real t => "floating point `" ++ t ++ "`"
  | .string s => "string " ++ Text.quote s
  | .sequence => "sequence"
  | .map => "map"

inductive Mismatch where
  | wrongType (found : Found) (wanted : String)
  | wrongValue (found : Found) (wanted : String)
  | wrongLength (length : Nat) (wanted : String)
  | missingField (name : String)
  | duplicateField (name : String)
  | unknownField (name : String) (known : List String)
  | unknownVariant (name : String) (known : List String)
  deriving DecidableEq, Repr

def oneOf (known : List String) : String :=
  match known.map fun k => "`" ++ k ++ "`" with
  | [] => ""
  | [a] => a
  | [a, b] => a ++ " or " ++ b
  | all => "one of " ++ ", ".intercalate all

def Mismatch.message : Mismatch → String
  | .wrongType found wanted => "invalid type: " ++ found.text ++ ", expected " ++ wanted
  | .wrongValue found wanted => "invalid value: " ++ found.text ++ ", expected " ++ wanted
  | .wrongLength length wanted =>
    "invalid length " ++ toString length ++ ", expected " ++ wanted
  | .missingField name => "missing field `" ++ name ++ "`"
  | .duplicateField name => "duplicate field `" ++ name ++ "`"
  | .unknownField name known =>
    "unknown field `" ++ name ++ "`, expected " ++ oneOf known
  | .unknownVariant name known =>
    "unknown variant `" ++ name ++ "`, expected " ++ oneOf known

namespace Json

def Number.found : Number → Found
  | .integer n => .integer n
  | .real x => .real x.compactText

def found : Json → Found
  | .null => .null
  | .bool b => .bool b
  | .number n => n.found
  | .string s => .string s
  | .array _ => .sequence
  | .object _ => .map

def Number.notUInt64 : Number → Mismatch
  | .integer n => .wrongValue (.integer n) "u64"
  | n => .wrongType n.found "u64"

def expectUInt64 : Json → Except Mismatch UInt64
  | .number n =>
    match n.toUInt64? with
    | some u => .ok u
    | none => .error n.notUInt64
  | v => .error (.wrongType v.found "u64")

def expectString : Json → Except Mismatch String
  | .string s => .ok s
  | v => .error (.wrongType v.found "a string")

def expectBool : Json → Except Mismatch Bool
  | .bool b => .ok b
  | v => .error (.wrongType v.found "a boolean")

def expectArray : Json → Except Mismatch (List Json)
  | .array items => .ok items
  | v => .error (.wrongType v.found "a sequence")

/-- `null` stands for absence. -/
def orNull {α : Type} (expect : Json → Except Mismatch α) : Json → Except Mismatch (Option α)
  | .null => .ok none
  | v => (expect v).map some

end Json

end RemoteInspector
