import RemoteInspector.Number.Binary64

/-!
The shortest decimal that reads back as a given double-precision number, and two ways to write it.

The reals that round to a number form an interval, its ends included when the significand is even.
The decimals of a fixed last place form a grid, and if a grid meets the interval then one of the
two grid points beside the number lies in it. So the search walks from the coarsest grid to finer
ones and stops at the first that has such a point; of two it takes the nearer, and of two equally
near ones the even.
-/

namespace RemoteInspector

/-- The decimal `digits * 10 ^ place`. -/
structure Decimal where
  digits : Nat
  place : Int
  deriving DecidableEq, Inhabited, Repr

namespace Binary64

/-- The grid point of place `place` beside `m * 2 ^ q` that reads back as it. All quantities are
scaled by one factor so that they are natural numbers: `unit` is a quarter of the last binary
place, `grid` one decimal place. -/
def gridPoint? (m : Nat) (q : Int) (narrowBelow : Bool) (place : Int) : Option Nat :=
  let unit := Nat.pow 2 (q - 2).toNat * Nat.pow 10 (-place).toNat
  let grid := Nat.pow 10 place.toNat * Nat.pow 2 (2 - q).toNat
  let value := 4 * m * unit
  let low := (4 * m - if narrowBelow then 1 else 2) * unit
  let high := (4 * m + 2) * unit
  let inside (x : Nat) : Bool :=
    if m % 2 = 0 then low ≤ x && x ≤ high else low < x && x < high
  let c := value / grid
  match inside (c * grid), inside ((c + 1) * grid) with
  | false, false => none
  | true, false => some c
  | false, true => some (c + 1)
  | true, true =>
    let below := value - c * grid
    let above := (c + 1) * grid - value
    if below < above ∨ below = above ∧ c % 2 = 0 then some c else some (c + 1)

/-- The first grid with a point, from `place` downwards. -/
def firstGrid (m : Nat) (q : Int) (narrowBelow : Bool) : (grids : Nat) → Int → Decimal
  | 0, place => ⟨m, place⟩
  | grids + 1, place =>
    match gridPoint? m q narrowBelow place with
    | some digits => ⟨digits, place⟩
    | none => firstGrid m q narrowBelow grids (place - 1)

/-- The shortest decimal of the magnitude of a finite number. The first grid is coarser than the
number is large; seventeen digits always suffice. -/
def shortest (x : Binary64) : Decimal :=
  let m := x.significand
  let q := x.exponent
  if m = 0 then ⟨0, 0⟩
  else
    let narrowBelow := m = Binary64.leadingBit ∧ 1 < x.exponentField
    firstGrid m q narrowBelow 24 ((m.log2 + 1 + q) * 30103 / 100000 + 1)

end Binary64

namespace Decimal

def text (d : Decimal) : List Char := Nat.toDigits 10 d.digits

def scientificExponent (d : Decimal) : Int := d.place + d.text.length - 1

def positional (d : Decimal) : List Char :=
  let digits := d.text
  let e := d.scientificExponent
  if e < 0 then '0' :: '.' :: (List.replicate (-e - 1).toNat '0' ++ digits)
  else
    let whole := (e + 1).toNat
    if digits.length ≤ whole then
      digits ++ List.replicate (whole - digits.length) '0' ++ ['.', '0']
    else digits.take whole ++ '.' :: digits.drop whole

def scientific (d : Decimal) : List Char :=
  let e := d.scientificExponent
  let sign := if e < 0 then '-' else '+'
  let mantissa := match d.text with
    | [] => []
    | [c] => [c]
    | c :: cs => c :: '.' :: cs
  mantissa ++ 'e' :: sign :: Nat.toDigits 10 e.natAbs

end Decimal

namespace Binary64

def signed (x : Binary64) (magnitude : List Char) : String :=
  String.ofList (if x.isNegative then '-' :: magnitude else magnitude)

/-- Positional from `0.00001` up to sixteen digits before the point, scientific elsewhere. -/
def compactText (x : Binary64) : String :=
  let d := x.shortest
  let e := d.scientificExponent
  x.signed (if -5 ≤ e ∧ e ≤ 15 then d.positional else d.scientific)

/-- Positional at every magnitude; `inf` and `NaN` beside the finite numbers. -/
def positionalText (x : Binary64) : String :=
  if x.isFinite then x.signed x.shortest.positional
  else if x.isNaN then "NaN"
  else x.signed "inf".toList

end Binary64

end RemoteInspector
