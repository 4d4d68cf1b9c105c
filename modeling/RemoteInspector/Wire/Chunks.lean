import RemoteInspector.Wire.Frame

/-!
Frames read from a stream that delivers its bytes in chunks. A line is gathered chunk by chunk: the
part of a chunk up to its first newline is taken, and the limit on lines is checked before every
such step. A body is gathered the same way until it is complete. Whatever reading comes to, it leaves a
rest of the stream: also where it fails, the bytes that it has taken are gone.
-/

namespace RemoteInspector.Chunks

/-- What a stream has still to deliver; an empty chunk delivers nothing. -/
abbrev Stream := List Bytes

def cut (size : Nat) : (fuel : Nat) → Bytes → Stream
  | 0, s => [s]
  | fuel + 1, s => if s.isEmpty then [] else s.take size :: cut size fuel (s.drop size)

/-- The bytes up to the first newline, which is included, and the rest; `none` without one. -/
def splitLine? (chunk : Bytes) : Option (Bytes × Bytes) :=
  match chunk.dropWhile (· != 10) with
  | [] => none
  | b :: rest => some (chunk.takeWhile (· != 10) ++ [b], rest)

/-- Gathers one line behind the bytes gathered already; `none` is the end of the stream. A chunk with
which the line gets too long is left. -/
def readLine (gathered : Bytes) : Stream → Except WireError (Option Bytes) × Stream
  | [] => (.ok (if gathered.isEmpty then none else some gathered), [])
  | chunk :: rest =>
    match splitLine? chunk with
    | some (line, left) =>
      if Frame.maxLine < gathered.length + line.length then (.error Frame.longLine, chunk :: rest)
      else (.ok (some (gathered ++ line)), left :: rest)
    | none =>
      if Frame.maxLine < gathered.length + chunk.length then (.error Frame.longLine, chunk :: rest)
      else readLine (gathered ++ chunk) rest

/-- Gathers `n` bytes; `none` if the stream ends before, and then nothing is left of it. -/
def readExact : Nat → Stream → Option Bytes × Stream
  | 0, s => (some [], s)
  | _ + 1, [] => (none, [])
  | n + 1, chunk :: rest =>
    if n + 1 ≤ chunk.length then (some (chunk.take (n + 1)), chunk.drop (n + 1) :: rest)
    else
      let (bytes, left) := readExact (n + 1 - chunk.length) rest
      (bytes.map (chunk ++ ·), left)

def readBody (h : Frame.Head) (s : Stream) : Except WireError (Option Frame) × Stream :=
  match h.bodyLength with
  | .error e => (.error e, s)
  | .ok n =>
    match readExact n s with
    | (none, left) => (.error Frame.cutBody, left)
    | (some body, left) => (.ok (some ⟨h.headers, body⟩), left)

/-- Reads lines until a blank one, and the body behind it. Every round takes a byte or more. -/
def readHead (h : Frame.Head) (started : Bool) :
    (fuel : Nat) → Stream → Except WireError (Option Frame) × Stream
  | 0, s => (.error Frame.cutHead, s)
  | fuel + 1, s =>
    match readLine [] s with
    | (.error e, left) => (.error e, left)
    | (.ok none, left) => (if started then .error Frame.cutHead else .ok none, left)
    | (.ok (some line), left) =>
      match h.line line with
      | .error e => (.error e, left)
      | .ok .blank => readBody h left
      | .ok (.more h) => readHead h true fuel left

def size (s : Stream) : Nat := s.flatten.length

def readFrame (s : Stream) : Except WireError (Option Frame) × Stream :=
  readHead {} false (size s + 1) s

def readAll : (fuel : Nat) → Stream → List Frame × Option WireError
  | 0, _ => ([], none)
  | fuel + 1, s =>
    match readFrame s with
    | (.error e, _) => ([], some e)
    | (.ok none, _) => ([], none)
    | (.ok (some f), left) =>
      let (fs, e) := readAll fuel left
      (f :: fs, e)

end RemoteInspector.Chunks
