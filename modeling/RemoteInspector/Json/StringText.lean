import RemoteInspector.Json.Fault

/-!
Strings in JSON texts, from the byte after the opening quote. The content is collected as bytes
and has to be UTF-8 as a whole. A surrogate is written as a pair of escapes or not at all.
-/

namespace RemoteInspector.Json

def hexOf? (b : UInt8) : Option Nat :=
  if 48 ≤ b ∧ b ≤ 57 then some (b.toNat - 48)
  else if 97 ≤ b ∧ b ≤ 102 then some (b.toNat - 87)
  else if 65 ≤ b ∧ b ≤ 70 then some (b.toNat - 55)
  else none

def readHex4 : Reader Nat
  | a :: b :: c :: d :: r =>
    match hexOf? a, hexOf? b, hexOf? c, hexOf? d with
    | some a, some b, some c, some d => .ok (((a * 16 + b) * 16 + c) * 16 + d, r)
    | _, _, _, _ => atHere .badEscape r
  | _ => atHere .unfinishedString []

def isLowSurrogate (n : Nat) : Bool := decide (0xDC00 ≤ n ∧ n ≤ 0xDFFF)

def isHighSurrogate (n : Nat) : Bool := decide (0xD800 ≤ n ∧ n ≤ 0xDBFF)

/-- The second half of a pair of surrogates, which has to follow the first at once. -/
def readLowSurrogate (high : Nat) : Reader Char
  | [] => atHere .unfinishedString []
  | b :: r =>
    if b ≠ 92 then atHere .unfinishedSurrogates r
    else match r with
      | [] => atHere .unfinishedString []
      | c :: r =>
        if c ≠ 117 then atHere .unfinishedSurrogates r
        else do
          let (low, r) ← readHex4 r
          if isLowSurrogate low then
            .ok (Char.ofNat ((high - 0xD800) * 0x400 + (low - 0xDC00) + 0x10000), r)
          else atHere .loneSurrogate r

def readNumberedChar (s : Bytes) : Except Fault (Char × Bytes) := do
  let (n, r) ← readHex4 s
  if isLowSurrogate n then atHere .loneSurrogate r
  else if isHighSurrogate n then readLowSurrogate n r
  else .ok (Char.ofNat n, r)

def shortEscape? (b : UInt8) : Option UInt8 :=
  if b = 34 ∨ b = 92 ∨ b = 47 then some b
  else if b = 98 then some 8
  else if b = 102 then some 12
  else if b = 110 then some 10
  else if b = 114 then some 13
  else if b = 116 then some 9
  else none

def readEscape : Reader Bytes
  | [] => atHere .unfinishedString []
  | b :: r =>
    match shortEscape? b with
    | some c => .ok ([c], r)
    | none =>
      if b = 117 then (readNumberedChar r).map fun (c, r) => (String.utf8EncodeChar c, r)
      else atHere .badEscape r

/-- The bytes of a string up to its closing quote; `seen` holds the bytes read so far in reverse.
Every round takes a byte or more, so `fuel` as great as the length of the text is enough. -/
def readContent : (fuel : Nat) → (seen : Bytes) → Reader Bytes
  | 0, _, s => atHere .unfinishedString s
  | _ + 1, _, [] => atHere .unfinishedString []
  | fuel + 1, seen, b :: r =>
    if b = 34 then .ok (seen.reverse, r)
    else if b = 92 then
      match readEscape r with
      | .ok (bytes, r) => readContent fuel (bytes.reverse ++ seen) r
      | .error f => .error f
    else if b < 32 then atHere .controlCharacter r
    else readContent fuel (b :: seen) r

def readStringBody (s : Bytes) : Except Fault (String × Bytes) := do
  let (bytes, r) ← readContent (s.length + 1) [] s
  match Text.decodeUtf8? bytes with
  | some text => .ok (text, r)
  | none => atHere .badText r

/-- Passes over a string from the byte after its opening quote, checking its form only. -/
def skipStringBody : (fuel : Nat) → Bytes → Except Fault Bytes
  | 0, s => atHere .unfinishedString s
  | _ + 1, [] => atHere .unfinishedString []
  | fuel + 1, b :: r =>
    if b = 34 then .ok r
    else if b = 92 then
      match r with
      | [] => atHere .unfinishedString []
      | c :: r =>
        if (shortEscape? c).isSome then skipStringBody fuel r
        else if c = 117 then
          match readHex4 r with
          | .ok (_, r) => skipStringBody fuel r
          | .error f => .error f
        else atHere .badEscape r
    else if b < 32 then atHere .controlCharacter (b :: r)
    else skipStringBody fuel r

end RemoteInspector.Json
