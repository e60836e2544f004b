/-!
# Exact decimal arithmetic

Quotients of natural numbers rounded to whole numbers, and the exact value of a binary floating
point number.

* `roundDiv`: a quotient rounded to the nearest whole number, a half to the even one.
* `Binary.ofFloat?`: the value of a finite number as `mantissa · 2 ^ exponent`.
* `two_mul_roundDiv_le`: rounding moves a quotient by at most one half.
-/

namespace MarkupTemplate.Decimal

/-- `num / den` rounded to the nearest whole number; a half goes to the even one. -/
def roundDiv (num den : Nat) : Nat :=
  let q := num / den
  let r := num % den
  if 2 * r < den then q
  else if 2 * r > den then q + 1
  else if q % 2 = 0 then q else q + 1

theorem two_mul_roundDiv_le (num : Nat) {den : Nat} (h : 0 < den) :
    2 * (roundDiv num den * den) ≤ 2 * num + den := by
  have h₁ := Nat.div_add_mod num den
  have h₂ := Nat.mod_lt num h
  simp only [roundDiv]
  rw [Nat.mul_comm] at h₁
  split
  · omega
  · split
    · rw [Nat.add_mul]; omega
    · split
      · omega
      · rw [Nat.add_mul]; omega

/-- The value `mantissa · 2 ^ exponent`. -/
structure Binary where
  mantissa : Nat
  exponent : Int
  /-- The number is the least of its exponent, so that the gap below it is half as wide. -/
  narrowBelow : Bool
deriving Repr, DecidableEq

/-- True of a negative number, of the negative zero too. -/
def isNegative (x : Float) : Bool := x.toBits >>> 63 == 1

/-- The absolute value of a finite number. -/
def Binary.ofFloat? (x : Float) : Option Binary :=
  let bits := x.toBits.toNat
  let unit := Nat.pow 2 52
  let fraction : Nat := bits % unit
  let biased : Nat := bits / unit % 2048
  if biased = 2047 then none
  else if biased = 0 then some ⟨fraction, -1074, false⟩
  else some ⟨fraction + unit, (biased : Int) - 1075, fraction == 0 && biased != 1⟩

namespace Binary

/-- The value times `10 ^ scale` as a fraction. -/
def scaled (b : Binary) (scale : Int) : Nat × Nat :=
  (b.mantissa * Nat.pow 2 b.exponent.toNat * Nat.pow 10 scale.toNat,
   Nat.pow 2 (-b.exponent).toNat * Nat.pow 10 (-scale).toNat)

/-- The exponent of the first digit of a positive fraction below one, from `k` on; `fuel` bounds the
number of leading zeros. -/
def leadingZeros (num den : Nat) : Nat → Nat → Nat
  | 0, k => k
  | fuel + 1, k => if num * Nat.pow 10 k < den then leadingZeros num den fuel (k + 1) else k

/-- The decimal exponent of the first digit of a positive value. -/
def decimalExponent (b : Binary) : Int :=
  let (num, den) := b.scaled 0
  if den ≤ num then ((Nat.toDigits 10 (num / den)).length : Int) - 1
  else -(leadingZeros num den 400 1 : Int)

end Binary

end MarkupTemplate.Decimal
