/-!
Decimal integers of a bounded range read from text: an optional sign, then digits only. The fault
names the first character at which reading cannot go on, so a digit too many and a letter are told
apart by which comes first.
-/

namespace RemoteInspector.Text

inductive DigitsFault where
  | empty
  | invalidDigit
  | tooLarge
  | tooSmall
  deriving DecidableEq, Repr

def DigitsFault.message : DigitsFault → String
  | .empty => "cannot parse integer from empty string"
  | .invalidDigit => "invalid digit found in string"
  | .tooLarge => "number too large to fit in target type"
  | .tooSmall => "number too small to fit in target type"

def digit? (c : Char) : Option Nat :=
  if '0' ≤ c ∧ c ≤ '9' then some (c.toNat - '0'.toNat) else none

/-- Extends `n` by the digits of a text, as long as the result stays below `limit`. -/
def readDigits (limit : Nat) (beyond : DigitsFault) : Nat → List Char → Except DigitsFault Nat
  | n, [] => .ok n
  | n, c :: cs =>
    match digit? c with
    | none => .error .invalidDigit
    | some d =>
      if n * 10 + d < limit then readDigits limit beyond (n * 10 + d) cs else .error beyond

/-- Reads an integer below `limit` from digits with an optional plus sign. -/
def readUnsigned (limit : Nat) (s : String) : Except DigitsFault Nat :=
  match s.toList with
  | [] => .error .empty
  | ['+'] => .error .invalidDigit
  | '+' :: cs => readDigits limit .tooLarge 0 cs
  | cs => readDigits limit .tooLarge 0 cs

def readSigned (bound : Nat) (s : String) : Except DigitsFault Int :=
  match s.toList with
  | [] => .error .empty
  | ['+'] | ['-'] => .error .invalidDigit
  | '+' :: cs => (readDigits bound .tooLarge 0 cs).map Int.ofNat
  | '-' :: cs => (readDigits (bound + 1) .tooSmall 0 cs).map fun n => -Int.ofNat n
  | cs => (readDigits bound .tooLarge 0 cs).map Int.ofNat

/-- The integers of 64 bits lie from the negative of this up to, but not including, it. -/
def int64Bound : Nat := 0x8000000000000000

def readUInt64 (s : String) : Except DigitsFault UInt64 :=
  (readUnsigned UInt64.size s).map UInt64.ofNat

end RemoteInspector.Text
