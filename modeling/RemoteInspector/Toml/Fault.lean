import RemoteInspector.Text.Digits
import RemoteInspector.Text.Quoted

/-!
What can be wrong with a TOML text. A fault names the construct that was being read, what could
have stood in place of what was found, and, for a text of the right form, what is wrong with its
content. A firm fault ends the reading; after one that is not firm another construct may be tried.
-/

namespace RemoteInspector.Toml

inductive Sought where
  | char (c : Char)
  | text (s : String)
  | thing (s : String)
  deriving DecidableEq, Repr

def Sought.name : Sought → String
  | .char '\n' => "newline"
  | .char c => "`" ++ String.singleton c ++ "`"
  | .text s => "`" ++ s ++ "`"
  | .thing s => s

def isBare (c : Char) : Bool :=
  c.isAlphanum || c == '-' || c == '_'

/-- A key as a document would hold it: bare if it can be, else between quotes. -/
def keyText (key : String) : String :=
  let cs := key.toList
  if !cs.isEmpty && cs.all isBare then key
  else if (cs.contains '"' || cs.contains '\\') && cs.all (fun c => c != '\'' && 32 ≤ c.toNat) then
    "'" ++ key ++ "'"
  else Text.quote key

inductive Objection where
  | digits (fault : Text.DigitsFault)
  | outOfRange
  | tooDeep
  /-- A key of the table at `path` is set again. -/
  | repeatedIn (key : String) (path : List String)
  | repeated (key : String)
  /-- The last key of `path` names a value that is no table. -/
  | notTable (path : List String) (actual : String)
  deriving DecidableEq, Repr

def Objection.message : Objection → String
  | .digits fault => fault.message
  | .outOfRange => "value is out of range"
  | .tooDeep => "recursion limit exceeded"
  | .repeatedIn key [] => "duplicate key `" ++ key ++ "` in document root"
  | .repeatedIn key path =>
    "duplicate key `" ++ key ++ "` in table `" ++ ".".intercalate path ++ "`"
  | .repeated key => "duplicate key `" ++ key ++ "`"
  | .notTable path actual =>
    "dotted key `" ++ ".".intercalate path ++ "` attempted to extend non-table type (" ++ actual
      ++ ")"

/-- Why a text could not be read. -/
structure Fault where
  /-- Nothing else is to be tried. -/
  firm : Bool := false
  /-- The innermost construct with a name. -/
  construct : Option String := none
  sought : List Sought := []
  objection : Option Objection := none
  deriving DecidableEq, Repr

def Fault.message (f : Fault) : String :=
  let construct := f.construct.toList.map ("invalid " ++ ·)
  let sought := if f.sought.isEmpty then [] else ["expected " ++ ", ".intercalate (f.sought.map Sought.name)]
  "\n".intercalate (construct ++ sought ++ f.objection.toList.map Objection.message)

end RemoteInspector.Toml
