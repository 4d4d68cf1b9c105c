/-!
Double-precision numbers as bit patterns, so that equality is equality of the pattern and can be
decided. The parts of a number are read off the pattern.
-/

namespace RemoteInspector

structure Binary64 where
  bits : UInt64
  deriving DecidableEq, Inhabited, Repr

namespace Binary64

def isNegative (x : Binary64) : Bool := x.bits >>> 63 != 0

def exponentField (x : Binary64) : Nat := ((x.bits >>> 52) &&& 0x7FF).toNat

def fraction (x : Binary64) : Nat := (x.bits &&& 0xFFFFFFFFFFFFF).toNat

def isFinite (x : Binary64) : Bool := x.exponentField != 0x7FF

def isNaN (x : Binary64) : Bool := !x.isFinite && x.fraction != 0

/-- The bit in front of the fraction of every number that is not too small. -/
def leadingBit : Nat := 0x10000000000000

/-- A finite number is `significand * 2 ^ exponent` up to its sign. -/
def significand (x : Binary64) : Nat :=
  if x.exponentField = 0 then x.fraction else x.fraction + leadingBit

def exponent (x : Binary64) : Int := (max x.exponentField 1 : Nat) - 1075

def negate (x : Binary64) : Binary64 := ⟨x.bits ^^^ 0x8000000000000000⟩

def zero (negative : Bool) : Binary64 := if negative then ⟨0x8000000000000000⟩ else ⟨0⟩

def withSign (negative : Bool) (x : Binary64) : Binary64 := if negative then x.negate else x

end Binary64

end RemoteInspector
