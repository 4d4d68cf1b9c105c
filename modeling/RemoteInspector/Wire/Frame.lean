import RemoteInspector.Text.Blank
import RemoteInspector.Text.Digits
import RemoteInspector.Text.Quoted
import RemoteInspector.Text.Redacted
import RemoteInspector.Wire.Envelope
import RemoteInspector.Wire.WireError

/-!
Frames: header lines, a blank line, and a body whose length the header `Content-Length` gives.
Reading goes byte by byte, so it does not depend on how the bytes arrive. A line ends with its
newline or with the input; the last `Content-Length` decides, and its value is an integer of
64 bits.
-/

namespace RemoteInspector

structure Frame where
  headers : List (String × String)
  body : Bytes
  deriving DecidableEq, Inhabited, Repr

namespace Frame

/-- The longest header line, its newline included. -/
def maxLine : Nat := 8 * 1024

def maxBody : Nat := 16 * 1024 * 1024

def lengthName : String := "Content-Length"

def header? (f : Frame) (name : String) : Option String :=
  (f.headers.find? fun (n, _) => Text.eqIgnoringCase n name).map (·.2)

/-- A frame without a body, which the machine sends when it accepts a connection. -/
def isGreeting (f : Frame) : Bool := f.body.isEmpty

structure Head where
  headers : List (String × String) := []
  length : Option Nat := none
  deriving DecidableEq, Inhabited, Repr

def withoutBreak (line : String) : List Char :=
  (line.toList.reverse.dropWhile fun c => c == '\r' || c == '\n').reverse

def badLength (value : String) (fault : Text.DigitsFault) : WireError :=
  .protocol ("invalid Content-Length " ++ Text.quote value ++ ": " ++ fault.message)

/-- Takes up one header line. A line without a colon counts for nothing. The name is compared as it
stands, and kept without the blanks around it. -/
def Head.add (h : Head) (line : List Char) : Except WireError Head :=
  if ':' ∈ line then do
    let name := String.ofList (line.takeWhile (· != ':'))
    let value := Text.trim (String.ofList ((line.dropWhile (· != ':')).drop 1))
    let headers := h.headers ++ [(Text.trim name, value)]
    if Text.eqIgnoringCase name lengthName then
      match Text.readUnsigned UInt64.size value with
      | .ok n => pure ⟨headers, some n⟩
      | .error fault => .error (badLength value fault)
    else pure ⟨headers, h.length⟩
  else pure h

inductive Line where
  | more (h : Head)
  | blank
  deriving DecidableEq

def notText : WireError := .stream .invalidData "V8 header line is not UTF-8"

def Head.line (h : Head) (line : Bytes) : Except WireError Line :=
  match Text.decodeUtf8? line with
  | none => .error notText
  | some text =>
    match withoutBreak text with
    | [] => .ok .blank
    | chars => (h.add chars).map .more

def Head.bodyLength (h : Head) : Except WireError Nat :=
  match h.length with
  | none => .error (.protocol "V8 message missing Content-Length header")
  | some n => if maxBody < n then .error (.tooLarge n maxBody) else .ok n

def longLine : WireError :=
  .stream .invalidData
    ("V8 header line exceeds maximum size (" ++ toString maxLine ++ " bytes)")

def cutHead : WireError := .stream .unexpectedEnd "EOF while reading V8 headers"

def cutBody : WireError := .stream .unexpectedEnd "early eof"

/-- The first `n` bytes and the rest, or `none` if there are fewer; `seen` holds the bytes before
them in reverse. -/
def split? : (n : Nat) → (seen : Bytes) → Bytes → Option (Bytes × Bytes)
  | 0, seen, s => some (seen.reverse, s)
  | _ + 1, _, [] => none
  | n + 1, seen, b :: s => split? n (b :: seen) s

theorem split?_eq (n : Nat) (seen s : Bytes) :
    split? n seen s = if s.length < n then none else some (seen.reverse ++ s.take n, s.drop n) := by
  induction n generalizing seen s with
  | zero => simp [split?]
  | succ n ih =>
    cases s with
    | nil => simp [split?]
    | cons b s => simp [split?, ih]

def readBody (h : Head) (s : Bytes) : Except WireError (Option (Frame × Bytes)) := do
  let n ← h.bodyLength
  match split? n [] s with
  | none => .error cutBody
  | some (body, rest) => pure (some (⟨h.headers, body⟩, rest))

/-- Reads lines until a blank one, and the body behind it. `line` holds the bytes of the current
line in reverse, `room` how many more it may have, and `started` that a line has been read. -/
def readHead (h : Head) (started : Bool) (line : Bytes) (room : Nat) :
    Bytes → Except WireError (Option (Frame × Bytes))
  | [] =>
    if line.isEmpty then if started then .error cutHead else .ok none
    else
      match h.line line.reverse with
      | .error e => .error e
      | .ok .blank => readBody h []
      | .ok (.more _) => .error cutHead
  | b :: s =>
    match room with
    | 0 => .error longLine
    | room + 1 =>
      if b = 10 then
        match h.line (b :: line).reverse with
        | .error e => .error e
        | .ok .blank => readBody h s
        | .ok (.more h) => readHead h true [] maxLine s
      else readHead h started (b :: line) room s

def read (s : Bytes) : Except WireError (Option (Frame × Bytes)) :=
  readHead {} false [] maxLine s

/-- Whether reading comes to the end of these bytes before it has a frame or a fault. -/
def awaitsMore (h : Head) (line : Bytes) (room : Nat) : Bytes → Bool
  | [] => true
  | b :: s =>
    match room with
    | 0 => false
    | room + 1 =>
      if b = 10 then
        match h.line (b :: line).reverse with
        | .error _ => false
        | .ok .blank =>
          match h.bodyLength with
          | .error _ => false
          | .ok n => s.length < n
        | .ok (.more h) => awaitsMore h [] maxLine s
      else awaitsMore h (b :: line) room s

/-- Whether these bytes are the beginning of a frame and not yet all of it. -/
def isPartial (s : Bytes) : Bool := awaitsMore {} [] maxLine s

def readAll : (fuel : Nat) → Bytes → List Frame × Option WireError
  | 0, _ => ([], none)
  | fuel + 1, s =>
    match read s with
    | .error e => ([], some e)
    | .ok none => ([], none)
    | .ok (some (f, r)) =>
      let (fs, e) := readAll fuel r
      (f :: fs, e)

end Frame

namespace Envelope

/-- The message in the body of a frame; what is wrong with it is told without the quoted values. -/
def decode (body : Bytes) : Except WireError Envelope :=
  match read body with
  | .ok e => .ok e
  | .error f =>
    .error (.protocol ("malformed V8 message: " ++ Text.redactPairedText (f.message body)))

def encodeText (e : Envelope) : Except WireError String :=
  let json := e.text
  let size := json.utf8ByteSize
  if Frame.maxBody < size then .error (.tooLarge size Frame.maxBody)
  else .ok ("Content-Length: " ++ toString size ++ "\r\n\r\n" ++ json)

def encode (e : Envelope) : Except WireError Bytes := e.encodeText.map Text.utf8

end Envelope

end RemoteInspector
