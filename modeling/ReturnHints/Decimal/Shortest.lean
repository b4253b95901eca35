/-!
# The shortest decimal of a float

A finite float is `m * 2 ^ q` for whole numbers `m` and `q`, and stands for all reals that are
nearer to it than to any other float (and for those half-way, if `m` is even).  The decimal that
is written for it is one with the fewest digits among these, and of those the nearest.
-/

namespace ReturnHints.Decimal

def twoTo (n : Nat) : Nat := Nat.pow 2 n

def tenTo (n : Nat) : Nat := Nat.pow 10 n

/-- A positive finite float `mantissa * 2 ^ exponent`.  `lowest` tells that the mantissa is the
smallest of its exponent, where the next lower float is only half as far away as the next
higher one. -/
structure Binary where
  mantissa : Nat
  exponent : Int
  lowest : Bool

/-- The decimal `digits * 10 ^ exponent`. -/
structure Digits where
  digits : Nat
  exponent : Int

/-- The parts of a positive finite float from its bits (without the sign). -/
def Binary.ofBits (bits : Nat) : Binary :=
  let fraction : Nat := bits % twoTo 52
  let biased : Nat := bits / twoTo 52
  if biased = 0 then ⟨fraction, -1074, false⟩
  else ⟨twoTo 52 + fraction, (biased : Int) - 1075, fraction = 0 && 1 < biased⟩

namespace Binary

/-- The value, and the two ends of the reals that round to it, as whole numbers over a common
denominator: four times the value times `2 ^ k`, with `k` large enough. -/
structure Interval where
  low : Nat
  value : Nat
  high : Nat
  denominator : Nat
  closed : Bool

def interval (b : Binary) : Interval :=
  let up := twoTo b.exponent.toNat
  let m := 4 * b.mantissa
  { low := (m - if b.lowest then 1 else 2) * up
    value := m * up
    high := (m + 2) * up
    denominator := 4 * twoTo (-b.exponent).toNat
    closed := b.mantissa % 2 = 0 }

end Binary

namespace Binary.Interval

/-- Whether `n * 10 ^ e` rounds to the value. -/
def holds (i : Interval) (n : Nat) (e : Int) : Bool :=
  let x := n * tenTo e.toNat * i.denominator
  let s := tenTo (-e).toNat
  if i.closed then i.low * s ≤ x && x ≤ i.high * s else i.low * s < x && x < i.high * s

/-- The multiple of `10 ^ e` that rounds to the value, the nearer one if there are two, and
that with the even last digit if both are as near. -/
def onGrid? (i : Interval) (e : Int) : Option Digits :=
  let unit := tenTo e.toNat * i.denominator
  let v := i.value * tenTo (-e).toNat
  let below := v / unit
  let rest := v % unit
  let upFirst := unit < 2 * rest || (unit == 2 * rest && below % 2 == 1)
  let candidates := if upFirst then [below + 1, below] else [below, below + 1]
  (candidates.find? fun n => n != 0 && i.holds n e).map (⟨·, e⟩)

/-- The first grid with a hit, from `10 ^ e` down. -/
def search (i : Interval) (e : Int) : Nat → Option Digits
  | 0 => none
  | n + 1 => (i.onGrid? e).or (i.search (e - 1) n)

end Binary.Interval

/-- Number of decimal digits. -/
def width (n : Nat) : Nat := (toString n).length

/-- The shortest decimal of a positive finite float.  The search starts above the leading digit
of the value and ends at the latest with the seventeenth digit, at most 341 places below the
point. -/
def shortest (b : Binary) : Digits :=
  let i := b.interval
  let top : Int := (width (i.value / i.denominator) : Int)
  (i.search top 400).getD ⟨0, 0⟩

end ReturnHints.Decimal
