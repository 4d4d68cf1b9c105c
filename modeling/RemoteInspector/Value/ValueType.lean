/-!
The declared type of a remote value. It follows from the type tag that the machine reports and, for
plain objects, from the class name. Compound values are shown by their properties, all others by
their text.
-/

namespace RemoteInspector

inductive ValueType where
  | number
  | string
  | boolean
  | undefined
  | null
  | date
  | object
  | array
  | function
  | error
  | unknown
  deriving DecidableEq, Repr

namespace ValueType

/-- The type by tag and class name; without a tag there is none. -/
def ofTag? (tag : Option String) (className : Option String) : Option ValueType :=
  tag.map fun t =>
    if t = "number" then .number
    else if t = "string" then .string
    else if t = "boolean" then .boolean
    else if t = "undefined" then .undefined
    else if t = "null" then .null
    else if t = "function" then .function
    else if t = "regexp" then .object
    else if t = "object" then
      if className = some "Date" then .date
      else if className = some "Array" then .array
      else if className = some "Error" then .error
      else .object
    else .unknown

def isCompound : ValueType → Bool
  | .object | .array | .function | .error => true
  | _ => false

def name : ValueType → String
  | .number => "number"
  | .string => "string"
  | .boolean => "boolean"
  | .undefined => "undefined"
  | .null => "null"
  | .date => "date"
  | .object => "object"
  | .array => "array"
  | .function => "function"
  | .error => "error"
  | .unknown => "unknown"

def title : ValueType → String
  | .number => "Number"
  | .string => "String"
  | .boolean => "Boolean"
  | .undefined => "Undefined"
  | .null => "Null"
  | .date => "Date"
  | .object => "Object"
  | .array => "Array"
  | .function => "Function"
  | .error => "Error"
  | .unknown => "Unknown"

end ValueType

end RemoteInspector
