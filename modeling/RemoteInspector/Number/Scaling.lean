import RemoteInspector.Number.Nearest

/-!
Decimal numbers with a significand of 64 bits, taken to double precision the quick way: by products
and quotients of double-precision numbers, each of which is rounded. The result is not always the
nearest number.
-/

namespace RemoteInspector.Binary64

def ofUInt64 (n : UInt64) : Binary64 := ofQuotient n.toNat 1

def powerOfTen (k : Nat) : Binary64 := ofQuotient (Nat.pow 10 k) 1

def ofScaled (n d : Nat) (k : Int) : Binary64 :=
  if 0 ≤ k then ofQuotient (n * Nat.pow 2 k.natAbs) d else ofQuotient n (d * Nat.pow 2 k.natAbs)

def mul (x y : Binary64) : Binary64 :=
  withSign (x.isNegative != y.isNegative)
    (ofScaled (x.significand * y.significand) 1 (x.exponent + y.exponent))

def div (x y : Binary64) : Binary64 :=
  withSign (x.isNegative != y.isNegative)
    (ofScaled x.significand y.significand (x.exponent - y.exponent))

def greatestPower : Nat := 308

/-- `x * 10 ^ k`, by one multiplication or division with a power of ten where the power is in
range, and in steps of `10 ^ -308` below that; `none` where the result is out of range. Two steps
take every number to zero, so three are enough. -/
def scale (x : Binary64) (k : Int) : (steps : Nat) → Option Binary64
  | 0 => some x
  | steps + 1 =>
    if k.natAbs ≤ greatestPower then
      if 0 ≤ k then
        let y := x.mul (powerOfTen k.natAbs)
        if y.isFinite then some y else none
      else some (x.div (powerOfTen k.natAbs))
    else if x.significand = 0 then some x
    else if 0 ≤ k then none
    else scale (x.div (powerOfTen greatestPower)) (k + greatestPower) steps

/-- The number read from a decimal significand and exponent, as `scale` rounds it. -/
def ofDecimal (negative : Bool) (digits : UInt64) (exponent : Int) : Option Binary64 :=
  ((ofUInt64 digits).scale exponent 4).map (withSign negative)

end RemoteInspector.Binary64
