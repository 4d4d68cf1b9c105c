import RemoteInspector.Json.Basic
import RemoteInspector.Text.Quoted

/-!
The compact text of a JSON value: no blanks, members in the order the object lists them, and the
escapes that the grammar demands, the short ones where they exist. Every writer appends to what is
written already, so that long texts are built once.
-/

namespace RemoteInspector.Json

def escape? (c : Char) : Option String :=
  if c = '"' then some "\\\""
  else if c = '\\' then some "\\\\"
  else if c = '\x08' then some "\\b"
  else if c = '\x0c' then some "\\f"
  else if c = '\n' then some "\\n"
  else if c = '\r' then some "\\r"
  else if c = '\t' then some "\\t"
  else if c.toNat < 0x20 then
    some (String.ofList
      ['\\', 'u', '0', '0', Text.hexDigit (c.toNat / 16), Text.hexDigit (c.toNat % 16)])
  else none

def writeChar (out : String) (c : Char) : String :=
  match escape? c with
  | some e => out ++ e
  | none => out.push c

def writeString (out : String) (s : String) : String :=
  (s.toList.foldl writeChar (out.push '"')).push '"'

mutual

def write (out : String) : Json → String
  | .null => out ++ "null"
  | .bool true => out ++ "true"
  | .bool false => out ++ "false"
  | .number n => out ++ n.text
  | .string s => writeString out s
  | .array [] => out ++ "[]"
  | .array (v :: vs) => (writeItems (write (out.push '[') v) vs).push ']'
  | .object [] => out ++ "\x7b\x7d"
  | .object ((k, v) :: rest) =>
    (writeMembers (write ((writeString (out.push '\x7b') k).push ':') v) rest).push '\x7d'

def writeItems (out : String) : List Json → String
  | [] => out
  | v :: vs => writeItems (write (out.push ',') v) vs

def writeMembers (out : String) : List (String × Json) → String
  | [] => out
  | (k, v) :: rest => writeMembers (write ((writeString (out.push ',') k).push ':') v) rest

end

def text (v : Json) : String := write "" v

end RemoteInspector.Json
