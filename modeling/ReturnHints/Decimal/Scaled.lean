/-!
# Floats from decimals

A decimal is read as a whole number below 2⁶⁴, its *significand*, and a power of ten.  The
significand is rounded to a float, and then multiplied or divided once by the power of ten, each
rounding to nearest.  Digits for which the significand has no room only count for the power.
-/

namespace ReturnHints.Decimal

/-- The largest significand, 2⁶⁴ - 1. -/
def maxSignificand : Nat := 18446744073709551615

/-- Appends digits to a significand as long as it has room.  Gives the new significand and the
number of digits appended. -/
def absorb (significand : Nat) : List Nat → Nat × Nat
  | [] => (significand, 0)
  | d :: ds =>
    if significand * 10 + d ≤ maxSignificand then
      let (s, taken) := absorb (significand * 10 + d) ds
      (s, taken + 1)
    else (significand, 0)

/-- The value of a run of digits. -/
def ofDigits (ds : List Nat) : Nat := ds.foldl (fun n d => n * 10 + d) 0

/-- The largest power of ten that is a float. -/
def maxPower : Nat := 308

/-- The float nearest to a power of ten. -/
def power (e : Nat) : Float := Float.ofScientific 1 false e

/-- `x * 10 ^ e`, or none if it is too large.  Below the smallest power `x` is first divided by
the largest one; three such divisions take every significand to zero. -/
def scale (x : Float) (e : Int) : Nat → Option Float
  | 0 => some x
  | n + 1 =>
    if e.natAbs ≤ maxPower then
      if 0 ≤ e then
        let y := x * power e.natAbs
        if y.isInf then none else some y
      else some (x / power e.natAbs)
    else if x == 0 then some x
    else if 0 ≤ e then none
    else scale (x / power maxPower) (e + maxPower) n

/-- The float of a signed decimal, or none if it is too large. -/
def toFloat? (negative : Bool) (significand : Nat) (e : Int) : Option Float :=
  (scale significand.toUInt64.toFloat e 4).map fun x => if negative then -x else x

end ReturnHints.Decimal
