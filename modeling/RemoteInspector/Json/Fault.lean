import RemoteInspector.Json.Mismatch
import RemoteInspector.Text.Utf8

/-!
Faults of JSON texts. A fault keeps what was left to read where it is reported; line and column
follow from how much of the text lies before that.
-/

namespace RemoteInspector.Json

inductive Reason where
  | unfinishedList
  | unfinishedObject
  | unfinishedString
  | unfinishedValue
  | expectedColon
  | expectedListEnd
  | expectedObjectEnd
  | expectedWord
  | expectedValue
  | badEscape
  | badNumber
  | numberOutOfRange
  | badText
  | controlCharacter
  | keyNotString
  | loneSurrogate
  | trailingComma
  | trailingCharacters
  | unfinishedSurrogates
  | tooDeep
  | mismatch (m : Mismatch)
  deriving DecidableEq, Repr

def Reason.message : Reason → String
  | .unfinishedList => "EOF while parsing a list"
  | .unfinishedObject => "EOF while parsing an object"
  | .unfinishedString => "EOF while parsing a string"
  | .unfinishedValue => "EOF while parsing a value"
  | .expectedColon => "expected `:`"
  | .expectedListEnd => "expected `,` or `]`"
  | .expectedObjectEnd => "expected `,` or `\x7d`"
  | .expectedWord => "expected ident"
  | .expectedValue => "expected value"
  | .badEscape => "invalid escape"
  | .badNumber => "invalid number"
  | .numberOutOfRange => "number out of range"
  | .badText => "invalid unicode code point"
  | .controlCharacter => "control character (\\u0000-\\u001F) found while parsing a string"
  | .keyNotString => "key must be a string"
  | .loneSurrogate => "lone leading surrogate in hex escape"
  | .trailingComma => "trailing comma"
  | .trailingCharacters => "trailing characters"
  | .unfinishedSurrogates => "unexpected end of hex escape"
  | .tooDeep => "recursion limit exceeded"
  | .mismatch m => m.message

/-- A reason and what was left to read where it is reported. -/
structure Fault where
  reason : Reason
  rest : Bytes
  deriving DecidableEq, Repr

/-- The line, from one, and the column after the bytes read so far. -/
structure Position where
  line : Nat
  column : Nat
  deriving DecidableEq, Repr

def Position.after (read : Bytes) : Position :=
  ⟨1 + read.count 10, (read.reverse.takeWhile (· != 10)).length⟩

def Fault.position (f : Fault) (text : Bytes) : Position :=
  Position.after (text.take (text.length - f.rest.length))

def Fault.message (f : Fault) (text : Bytes) : String :=
  let p := f.position text
  f.reason.message ++ " at line " ++ toString p.line ++ " column " ++ toString p.column

abbrev Reader (α : Type) := Bytes → Except Fault (α × Bytes)

/-- A fault at the next byte rather than before it. -/
def atNext {α : Type} (reason : Reason) (s : Bytes) : Except Fault α :=
  .error ⟨reason, s.drop 1⟩

def atHere {α : Type} (reason : Reason) (s : Bytes) : Except Fault α :=
  .error ⟨reason, s⟩

end RemoteInspector.Json
