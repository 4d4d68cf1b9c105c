import RemoteInspector.Json.Fault
import RemoteInspector.Number.Scaling
import RemoteInspector.Text.Digits

/-!
Numbers in JSON texts. Digits are taken up into a significand of 64 bits as long as they fit; the
digits before the point that do not fit raise the exponent, the ones after it are passed over. What
has neither point nor exponent and fits 64 bits is an integer.
-/

namespace RemoteInspector.Json

def digitOf? (b : UInt8) : Option Nat :=
  if 48 ≤ b ∧ b ≤ 57 then some (b.toNat - 48) else none

def isDigit (b : UInt8) : Bool := (digitOf? b).isSome

def skipDigits (s : Bytes) : Bytes := s.dropWhile isDigit

def startsExponent : Bytes → Bool
  | b :: _ => b == 101 || b == 69
  | [] => false

/-- The greatest exponent that is still taken up digit by digit. -/
def exponentLimit : Nat := 0x80000000

/-- A real by its parts; the fault is reported behind the number. -/
def realOf (negative : Bool) (significand : Nat) (exponent : Int) (s : Bytes) :
    Except Fault (Number × Bytes) :=
  match Binary64.ofDecimal negative (UInt64.ofNat significand) exponent with
  | some x => .ok (.real x, s)
  | none => atHere .numberOutOfRange s

/-- The digits of an exponent after its first, up to the sign that goes with it. -/
def exponentDigits (negative : Bool) (significand : Nat) (start : Int) (below : Bool) :
    Nat → Reader Number
  | e, [] => realOf negative significand (if below then start - e else start + e) []
  | e, b :: r =>
    match digitOf? b with
    | none => realOf negative significand (if below then start - e else start + e) (b :: r)
    | some d =>
      if e * 10 + d < exponentLimit then
        exponentDigits negative significand start below (e * 10 + d) r
      else if significand ≠ 0 ∧ !below then atHere .numberOutOfRange r
      else .ok (.real (.zero negative), skipDigits r)

def readExponent (negative : Bool) (significand : Nat) (start : Int) (s : Bytes) :
    Except Fault (Number × Bytes) :=
  let (below, s) := match s with
    | 43 :: r => (false, r)
    | 45 :: r => (true, r)
    | _ => (false, s)
  match s with
  | [] => atHere .unfinishedValue []
  | b :: r =>
    match digitOf? b with
    | some d => exponentDigits negative significand start below d r
    | none => atHere .badNumber r

def realTail (negative : Bool) (significand : Nat) (exponent : Int) (s : Bytes) :
    Except Fault (Number × Bytes) :=
  if startsExponent s then readExponent negative significand exponent (s.drop 1)
  else realOf negative significand exponent s

def fractionDigits (negative : Bool) (before : Int) (places significand : Nat) : Reader Number
  | [] =>
    if places = 0 then atNext .unfinishedValue []
    else realOf negative significand (before - places) []
  | b :: r =>
    match digitOf? b with
    | some d =>
      if significand * 10 + d < UInt64.size then
        fractionDigits negative before (places + 1) (significand * 10 + d) r
      else realTail negative significand (before - places) (skipDigits (b :: r))
    | none =>
      if places = 0 then atNext .badNumber (b :: r)
      else realTail negative significand (before - places) (b :: r)

/-- The digits of an integer part that no longer fits, `more` of which have been passed over. -/
def longDigits (negative : Bool) (significand : Nat) : Nat → Reader Number
  | more, [] => realOf negative significand more []
  | more, b :: r =>
    if isDigit b then longDigits negative significand (more + 1) r
    else if b = 46 then fractionDigits negative more 0 significand r
    else realTail negative significand more (b :: r)

/-- What follows the digits of an integer part. A negative zero and what lies below `-2 ^ 63` are
reals. -/
def integerTail (negative : Bool) (significand : Nat) (s : Bytes) :
    Except Fault (Number × Bytes) :=
  match s with
  | 46 :: r => fractionDigits negative 0 0 significand r
  | _ =>
    if startsExponent s then readExponent negative significand 0 (s.drop 1)
    else if !negative then .ok (.integer significand, s)
    else if 0 < significand ∧ significand ≤ Text.int64Bound then .ok (.integer (-significand), s)
    else .ok (.real (Binary64.ofUInt64 (UInt64.ofNat significand)).negate, s)

def integerDigits (negative : Bool) : Nat → Reader Number
  | significand, [] => integerTail negative significand []
  | significand, b :: r =>
    match digitOf? b with
    | none => integerTail negative significand (b :: r)
    | some d =>
      if significand * 10 + d < UInt64.size then integerDigits negative (significand * 10 + d) r
      else longDigits negative significand 0 (b :: r)

def readMagnitude (negative : Bool) : Reader Number
  | [] => atHere .unfinishedValue []
  | b :: r =>
    match digitOf? b with
    | none => atHere .badNumber r
    | some 0 =>
      match r with
      | c :: _ => if isDigit c then atNext .badNumber r else integerTail negative 0 r
      | [] => integerTail negative 0 []
    | some d => integerDigits negative d r

def readNumber : Reader Number
  | 45 :: r => readMagnitude true r
  | s => readMagnitude false s

def skipExponent (s : Bytes) : Except Fault Bytes :=
  let s := match s with
    | 43 :: r | 45 :: r => r
    | _ => s
  match s with
  | [] => atHere .badNumber []
  | b :: r => if isDigit b then .ok (skipDigits r) else atHere .badNumber r

def skipTail (s : Bytes) : Except Fault Bytes :=
  match s with
  | 46 :: r =>
    match r with
    | b :: _ =>
      if isDigit b then
        let r := skipDigits r
        if startsExponent r then skipExponent (r.drop 1) else .ok r
      else atNext .badNumber r
    | [] => atNext .badNumber []
  | _ => if startsExponent s then skipExponent (s.drop 1) else .ok s

/-- Passes over a number without its sign, checking its form only. -/
def skipMagnitude : Bytes → Except Fault Bytes
  | [] => atHere .badNumber []
  | b :: r =>
    match digitOf? b with
    | none => atHere .badNumber r
    | some 0 =>
      match r with
      | c :: _ => if isDigit c then atNext .badNumber r else skipTail r
      | [] => .ok []
    | some _ => skipTail (skipDigits r)

def skipNumber : Bytes → Except Fault Bytes
  | 45 :: r => skipMagnitude r
  | s => skipMagnitude s

end RemoteInspector.Json
