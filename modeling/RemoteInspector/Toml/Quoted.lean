import RemoteInspector.Toml.Spacing

/-!
Strings. Between double quotes a backslash begins an escape, between apostrophes nothing does;
three marks in a row open a string that may run over several lines.
-/

namespace RemoteInspector.Toml

open Reader

def isPlain (c : Char) : Bool :=
  isCommentChar c && c != '"' && c != '\\'

def isVerbatim (c : Char) : Bool :=
  isCommentChar c && c != '\''

def isHexDigit (c : Char) : Bool :=
  c.isDigit || ('a' ≤ c && c ≤ 'f') || ('A' ≤ c && c ≤ 'F')

def hexValue (c : Char) : Nat :=
  if c.isDigit then c.toNat - '0'.toNat else c.toLower.toNat - 'a'.toNat + 10

def numberOfDigits (base : Nat) (ds : List Char) : Nat :=
  ds.foldl (fun n c => n * base + hexValue c) 0

def charByNumber (count : Nat) : Reader Char := do
  let ds := ((← get).takeWhile isHexDigit).take count
  if ds.length = count then
    word ds
    let n := numberOfDigits 16 ds
    if n.isValidChar then return Char.ofNat n else object .outOfRange
  else throw {}

def escapeLetters : List Char := ['b', 'f', 'n', 'r', 't', 'u', 'U', '\\', '"']

/-- An escape, backslash included. A backslash at the end of the text is none. -/
def escape : Reader Char := do
  let _ ← char '\\'
  match ← satisfying fun _ => true with
  | 'b' => return '\x08'
  | 'f' => return '\x0c'
  | 'n' => return '\n'
  | 'r' => return '\r'
  | 't' => return '\t'
  | 'u' => naming "unicode 4-digit hex code" (firmly (charByNumber 4))
  | 'U' => naming "unicode 8-digit hex code" (firmly (charByNumber 8))
  | '\\' => return '\\'
  | '"' => return '"'
  | _ => throw {
      firm := true, construct := some "escape sequence", sought := escapeLetters.map .char }

def plainPart : Reader (List Char) :=
  orElse (takingSome isPlain) ((fun c => [c]) <$> escape)

def plainString : Reader String := do
  let _ ← char '"'
  let parts ← many plainPart
  let _ ← naming "basic string" (firmly (char '"'))
  return String.ofList parts.flatten

def verbatimString : Reader String :=
  naming "literal string" do
    let _ ← char '\''
    let cs ← taking isVerbatim
    let _ ← firmly (char '\'')
    return String.ofList cs

/-- One or two quotes that do not end a string: two if what must follow then stands behind them,
else one. -/
def innerQuotes (quote : Char) (follow : Reader Unit) : Reader (List Char) :=
  orElse
    (do word [quote, quote]; ahead follow; return [quote, quote])
    (do word [quote]; ahead follow; return [quote])

def longMark (quote : Char) : Reader Unit := word [quote, quote, quote]

/-- The inside of a string of several lines: content, in which quotes may stand as long as they do
not end it, and quotes just before the end. -/
def longBody (quote : Char) (content : Reader (List Char)) : Reader (List Char) := do
  let opening ← many content
  let further ← many do
    let quotes ← innerQuotes quote do let _ ← satisfying (· != quote)
    let parts ← oneOrMore content
    return quotes ++ parts.flatten
  let closing ← optional (innerQuotes quote (longMark quote))
  return opening.flatten ++ further.flatten ++ closing.getD []

/-- A backslash at the end of a line, with all white space up to the next character. -/
def escapedNewline : Reader Unit := do
  let _ ← char '\\'
  spaces
  newline
  spacesAndLines

def longPlainPart : Reader (List Char) :=
  orElse (takingSome isPlain) <|
  orElse (do let _ ← oneOrMore escapedNewline; return []) <|
  orElse ((fun c => [c]) <$> escape) <|
  do newline; return ['\n']

def longPlainString : Reader String :=
  naming "multiline basic string" do
    longMark '"'
    let _ ← optional newline
    let cs ← firmly (longBody '"' longPlainPart)
    firmly (longMark '"')
    return String.ofList cs

def longVerbatimPart : Reader (List Char) :=
  orElse (takingSome isVerbatim) do newline; return ['\n']

def longVerbatimString : Reader String :=
  naming "multiline literal string" do
    longMark '\''
    let _ ← optional newline
    let cs ← firmly (longBody '\'' longVerbatimPart)
    firmly (longMark '\'')
    return String.ofList cs

def anyString : Reader String :=
  orElse longPlainString <|
  orElse plainString <|
  orElse longVerbatimString
  verbatimString

/-- The most keys a dotted key may have, less one. -/
def depthLimit : Nat := 80

def simpleKey : Reader String := do
  match (← get).head? with
  | some '"' => plainString
  | some '\'' => verbatimString
  | _ => String.ofList <$> takingSome isBare

def dottedKey : Reader (List String) := do
  let keys ← naming "key" (separatedBy '.' do
    spaces
    let key ← simpleKey
    spaces
    return key)
  if depthLimit ≤ keys.length then object .tooDeep else return keys

end RemoteInspector.Toml
