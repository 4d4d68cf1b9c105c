import RemoteInspector.Number.Binary64

/-!
The double-precision number nearest to a quotient of natural numbers, and so to a decimal fraction
of any length. Of two numbers equally near, the one with the even significand is taken.
-/

namespace RemoteInspector.Binary64

def infinity : Binary64 := ⟨0x7FF0000000000000⟩

/-- A quotient rounded to a whole number, a half to the even neighbour. -/
def roundQuotient (n d : Nat) : Nat :=
  let q := n / d
  let twice := 2 * (n % d)
  if twice < d then q
  else if d < twice then q + 1
  else q + q % 2

/-- The exponent `k` for which `n / d` lies between `2 ^ 52` and `2 ^ 53` times `2 ^ k`, or the
least exponent if that is greater. -/
def quotientExponent (n d : Nat) : Int :=
  let k : Int := (n.log2 : Int) - (d.log2 : Int) - 52
  let small : Bool :=
    if 0 ≤ k then n < d * Nat.pow 2 (52 + k.natAbs)
    else n * Nat.pow 2 k.natAbs < d * leadingBit
  max (if small then k - 1 else k) (-1074)

/-- The number nearest to `n / d`, infinite above the range. A significand that rounds up to
`2 ^ 53` carries into the exponent. -/
def ofQuotient (n d : Nat) : Binary64 :=
  if n = 0 then zero false
  else
    let k := quotientExponent n d
    let q := if 0 ≤ k then roundQuotient n (d * Nat.pow 2 k.natAbs) else roundQuotient (n * Nat.pow 2 k.natAbs) d
    let bits := (k + 1074).toNat * leadingBit + q
    if bits < 0x7FF0000000000000 then ⟨UInt64.ofNat bits⟩ else infinity

/-- The number nearest to `digits * 10 ^ exponent`. Beyond 400 places on either side of the point
the result is infinite or zero, whatever the digits are. -/
def ofScientific (digits : Nat) (exponent : Int) : Binary64 :=
  let size := (Nat.toDigits 10 digits).length
  if digits = 0 then zero false
  else if 400 < exponent + size then infinity
  else if exponent + size < -400 then zero false
  else if 0 ≤ exponent then ofQuotient (digits * Nat.pow 10 exponent.natAbs) 1
  else ofQuotient digits (Nat.pow 10 exponent.natAbs)

end RemoteInspector.Binary64
