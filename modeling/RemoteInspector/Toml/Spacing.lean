import RemoteInspector.Toml.Reader

/-!
What separates the parts of a document: blanks, comments and the ends of lines.
-/

namespace RemoteInspector.Toml

open Reader

def isSpace (c : Char) : Bool := c == ' ' || c == '\t'

def isWide (c : Char) : Bool := 128 ≤ c.toNat

def isCommentChar (c : Char) : Bool :=
  c == '\t' || (32 ≤ c.toNat && c.toNat ≤ 126) || isWide c

def spaces : Reader Unit := do
  let _ ← taking isSpace

def comment : Reader Unit := do
  let _ ← char '#'
  let _ ← taking isCommentChar

def newline : Reader Unit :=
  orElse (word ['\n']) (word ['\r', '\n'])

def lineEnd : Reader Unit :=
  orElse newline finish

/-- What may follow on a line behind its content. -/
def lineRest : Reader Unit := do
  spaces
  let _ ← optional comment
  lineEnd

/-- As `lineRest`, with the alternatives that a fault names. -/
def endOfContent : Reader Unit :=
  seeking (.char '#') (seeking (.char '\n') lineRest)

def spacesAndLines : Reader Unit := do
  let _ ← many (orElse newline do let _ ← takingSome isSpace)

/-- Blanks, comments and ends of lines, as they may stand around the values of an array. -/
def filler : Reader Unit := do
  let _ ← many (orElse (orElse (do let _ ← takingSome isSpace) newline) comment)

end RemoteInspector.Toml
