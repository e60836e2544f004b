import MarkupTemplate.Decimal.Exact

/-!
# Nearest floats

The binary floating point numbers nearest to exact values; a half goes to the even neighbour. Each
value is rounded once, to as many bits as its size leaves it.

* `floatOfRatio`: the float nearest to a quotient.
* `floatOfInt`: the float nearest to an integer.
* `hypotenuse`: the float nearest to the length of a vector.
* `sq_rootFloor_le`, `lt_sq_rootFloor_succ`: what the whole part of a square root is.
-/

namespace MarkupTemplate.Decimal

/-- The exponent of the last bit that a float near `num / den` holds: of fifty-three bits, or of the
smallest float. -/
def lastBit (num den : Nat) : Int :=
  let low : Int := (num.log2 : Int) - den.log2 - 53
  let exact := num * Nat.pow 2 (-low).toNat / (den * Nat.pow 2 low.toNat)
  max (if exact < Nat.pow 2 53 then low else low + 1) (-1074)

/-- The float nearest to `num / den`; infinite when it is out of range. -/
def floatOfRatio (num den : Nat) : Float :=
  let e := lastBit num den
  let m := roundDiv (num * Nat.pow 2 (-e).toNat) (den * Nat.pow 2 e.toNat)
  (UInt64.ofNat m).toFloat.scaleB e

/-- The float nearest to an integer; infinite when it is out of range. -/
def floatOfInt (n : Int) : Float :=
  let x := floatOfRatio n.natAbs 1
  if n < 0 then -x else x

/-- The whole part of a square root, found from that of a quarter of the number. -/
def rootFloor (n : Nat) : Nat :=
  if _h : n = 0 then 0
  else
    let r := 2 * rootFloor (n / 4)
    if (r + 1) * (r + 1) ≤ n then r + 1 else r
termination_by n
decreasing_by omega

theorem sq_rootFloor_le (n : Nat) : rootFloor n * rootFloor n ≤ n := by
  fun_induction rootFloor n with
  | case1 => omega
  | case2 n _ r h _ => exact h
  | case3 n _ r _ ih =>
    have e : r * r = 4 * (rootFloor (n / 4) * rootFloor (n / 4)) := Nat.mul_mul_mul_comm ..
    omega

theorem lt_sq_rootFloor_succ (n : Nat) : n < (rootFloor n + 1) * (rootFloor n + 1) := by
  fun_induction rootFloor n with
  | case1 => omega
  | case2 n _ r _ ih =>
    have e : (r + 1 + 1) * (r + 1 + 1)
        = 4 * ((rootFloor (n / 4) + 1) * (rootFloor (n / 4) + 1)) := by
      rw [show r + 1 + 1 = 2 * (rootFloor (n / 4) + 1) by simp only [r]; omega,
        Nat.mul_mul_mul_comm]
    omega
  | case3 n _ r h _ => omega

/-- The float nearest to the square root of `n · 2 ^ (2 · exponent)`: the root is taken with some
seventy bits, the last of which records a remainder. -/
def floatOfRoot (n : Nat) (exponent : Int) : Float :=
  let shift := 70 - n.log2 / 2
  let scaled := n * Nat.pow 4 shift
  let root := rootFloor scaled
  let marked := 2 * root + (if root * root = scaled then 0 else 1)
  let e := exponent - shift - 1
  floatOfRatio (marked * Nat.pow 2 e.toNat) (Nat.pow 2 (-e).toNat)

/-- The float nearest to the length of the vector `(x, y)`. -/
def hypotenuse (x y : Float) : Float :=
  match Binary.ofFloat? x, Binary.ofFloat? y with
  | some a, some b =>
    let e := min a.exponent b.exponent
    let m := a.mantissa * Nat.pow 2 (a.exponent - e).toNat
    let n := b.mantissa * Nat.pow 2 (b.exponent - e).toNat
    floatOfRoot (m * m + n * n) e
  | _, _ => if x.isInf || y.isInf then 1.0 / 0.0 else 0.0 / 0.0

end MarkupTemplate.Decimal
