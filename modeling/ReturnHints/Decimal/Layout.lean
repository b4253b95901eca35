import ReturnHints.Decimal.Shortest

/-!
# Writing floats

How the digits of a float are laid out: with a point among them as long as the number is neither
large nor small, and with an exponent otherwise.
-/

namespace ReturnHints.Decimal

/-- A layout writes numbers from `10 ^ least` up to below `10 ^ (most + 1)` with a point and at
least one digit on both sides of it, and all others with an exponent and its sign. -/
structure Layout where
  least : Int
  most : Int

/-- The digits of a whole number, from the left. -/
def digitChars (n : Nat) : List Char := (toString n).toList

/-- `digits * 10 ^ exponent` with a point. -/
def Digits.positional (d : Digits) : List Char :=
  let ds := digitChars d.digits
  let places := (-d.exponent).toNat
  if d.exponent ≥ 0 then ds ++ List.replicate d.exponent.toNat '0' ++ ['.', '0']
  else if places < ds.length then
    ds.take (ds.length - places) ++ '.' :: ds.drop (ds.length - places)
  else ['0', '.'] ++ List.replicate (places - ds.length) '0' ++ ds

/-- `digits * 10 ^ exponent` with one digit before the point and an exponent. -/
def Digits.scientific (d : Digits) : List Char :=
  let ds := digitChars d.digits
  let e := d.exponent + ds.length - 1
  let mantissa := if ds.length ≤ 1 then ds else ds.take 1 ++ '.' :: ds.drop 1
  mantissa ++ 'e' :: (if e < 0 then '-' else '+') :: digitChars e.natAbs

def Layout.write (l : Layout) (d : Digits) : List Char :=
  let e := d.exponent + width d.digits - 1
  if l.least ≤ e && e ≤ l.most then d.positional else d.scientific

/-- Numbers in messages have a point from 0.00001 up to below 10¹⁶. -/
def message : Layout := ⟨-5, 15⟩

/-- The text of a finite float in a message. -/
def shown (x : Float) : String :=
  let bits := x.toBits.toNat
  let sign := if bits / twoTo 63 = 1 then ['-'] else []
  let rest := bits % twoTo 63
  if rest = 0 then String.ofList (sign ++ ['0', '.', '0'])
  else String.ofList (sign ++ message.write (shortest (.ofBits rest)))

end ReturnHints.Decimal
