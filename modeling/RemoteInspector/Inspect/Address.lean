import RemoteInspector.Text.Digits
import RemoteInspector.Text.Quoted

/-!
Addresses of machines. A host is written as four octets, as the groups of a longer address, or by
name; the only name that is known is that of this machine. An address is shown in one form: the
octets, or the groups with the longest run of zeros left out, in brackets.
-/

namespace RemoteInspector.Inspect

inductive HostAddress where
  | short (octets : List Nat)
  | long (groups : List Nat)
  deriving DecidableEq, Repr, Inhabited

namespace HostAddress

def number? (base limit : Nat) (s : String) : Option Nat :=
  let digit (c : Char) : Option Nat :=
    let d := if c.isDigit then c.toNat - '0'.toNat else c.toLower.toNat - 'a'.toNat + 10
    if (c.isDigit || c.isAlpha) && d < base then some d else none
  if s.isEmpty then none
  else do
    let n ← s.toList.foldlM (fun n c => (digit c).map (n * base + ·)) 0
    if n < limit then some n else none

/-- A part of a short address: decimal, or with a zero in front octal, or hexadecimal. -/
def part? (limit : Nat) (s : String) : Option Nat :=
  match s.toList with
  | '0' :: 'x' :: r | '0' :: 'X' :: r => number? 16 limit (String.ofList r)
  | '0' :: c :: r => number? 8 limit (String.ofList (c :: r))
  | _ => number? 10 limit s

def octets (n : Nat) : (count : Nat) → List Nat
  | 0 => []
  | count + 1 => octets (n / 256) count ++ [n % 256]

/-- A short address of one to four parts; the last part stands for all octets that are left. -/
def short? (s : String) : Option (List Nat) := do
  let parts := s.splitOn "."
  if 4 < parts.length then none
  else do
    let first ← (parts.dropLast).mapM (part? 256)
    let left := 4 - first.length
    let last ← part? (Nat.pow 256 left) (parts.getLast?.getD "")
    return first ++ octets last left

/-- Groups with colons between them; the last may be a short address of four decimal octets. -/
def groups? (s : String) : Option (List Nat) :=
  if s.isEmpty then some []
  else
    let parts := s.splitOn ":"
    let group (t : String) : Option Nat := if 4 < t.length then none else number? 16 65536 t
    let last := parts.getLast?.getD ""
    if last.contains '.' then do
      let first ← (parts.dropLast).mapM group
      let os ← (last.splitOn ".").mapM (number? 10 256)
      match os with
      | [a, b, c, d] => return first ++ [a * 256 + b, c * 256 + d]
      | _ => none
    else parts.mapM group

/-- A long address; two colons stand for as many zeros as are missing. -/
def long? (s : String) : Option (List Nat) :=
  match s.splitOn "::" with
  | [all] => (groups? all).filter fun gs => gs.length = 8
  | [left, right] => do
    let a ← groups? left
    let b ← groups? right
    if a.length + b.length < 8 then
      return a ++ List.replicate (8 - a.length - b.length) 0 ++ b
    else none
  | _ => none

def zeroRun (gs : List Nat) : Nat × Nat :=
  let runs := (List.range gs.length).map fun i => (i, ((gs.drop i).takeWhile (· == 0)).length)
  runs.foldl (fun best r => if best.2 < r.2 then r else best) (0, 0)

def groupsText (gs : List Nat) : String :=
  ":".intercalate (gs.map fun g => String.ofList (Text.hexDigits g))

def shortText (os : List Nat) : String := ".".intercalate (os.map toString)

def text : HostAddress → String
  | .short os => shortText os
  | .long gs =>
    let body := match gs with
      | [0, 0, 0, 0, 0, 0xFFFF, a, b] => "::ffff:" ++ shortText (octets (a * 65536 + b) 4)
      | _ =>
        let (start, count) := zeroRun gs
        if count < 2 then groupsText gs
        else groupsText (gs.take start) ++ "::" ++ groupsText (gs.drop (start + count))
    "[" ++ body ++ "]"

def ofHost? (host : String) : Option HostAddress :=
  if host == "localhost" then some (.short [127, 0, 0, 1])
  else
    let inner := match host.toList with
      | '[' :: cs => if cs.getLast? = some ']' then some (String.ofList cs.dropLast) else none
      | _ => none
    match inner with
    | some s => (long? s).map .long
    | none => (short? host).map .short <|> (long? host).map .long

end HostAddress

structure Endpoint where
  host : HostAddress
  tcpPort : UInt16
  deriving DecidableEq, Repr, Inhabited

def Endpoint.text (e : Endpoint) : String := e.host.text ++ ":" ++ toString e.tcpPort.toNat

end RemoteInspector.Inspect
