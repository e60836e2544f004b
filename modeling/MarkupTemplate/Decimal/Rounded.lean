import MarkupTemplate.Decimal.FloatText

/-!
# Rounded decimals

A binary floating point number with a given number of decimals or of leading digits. The exact
value is rounded once; a half goes to the even neighbour.

* `Rounded.fixed`: with a given number of decimals.
* `Rounded.leading`: with a given number of leading digits.
-/

namespace MarkupTemplate.Decimal

namespace Rounded

/-- A number in units of `10 ^ -places`. -/
def fixed (b : Binary) (places : Nat) : Nat :=
  let (num, den) := b.scaled places
  roundDiv num den

/-- The leading digits of a number, zero included. -/
def leading (b : Binary) (count : Nat) : Digits :=
  if b.mantissa = 0 then ⟨0, count, 0⟩
  else
    let first := b.decimalExponent
    let (num, den) := b.scaled (count - 1 - first)
    let n := roundDiv num den
    if n = Nat.pow 10 count then ⟨Nat.pow 10 (count - 1), count, first + 1⟩
    else ⟨n, count, first⟩

/-- The digits of a number with decimals: at least one before the point. -/
def fixedChars (b : Binary) (places : Nat) : List Char × List Char :=
  let digits := Text.padLeft (places + 1) '0' (digitsOfNat (fixed b places))
  (digits.take (digits.length - places), digits.drop (digits.length - places))

end Rounded

end MarkupTemplate.Decimal
