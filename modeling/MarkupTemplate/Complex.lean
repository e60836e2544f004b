import MarkupTemplate.Decimal.FloatText
import MarkupTemplate.Decimal.Nearest

/-!
# Complex numbers

Numbers with a real and an imaginary part, both floats: what a negative number becomes when it is
raised to a power that is not whole.

* `Complex.pow?`: a power; small whole powers are products, other ones go by length and angle.
* `Complex.div?`: a quotient, unless the divisor is zero.
* `Complex.length?`: the distance from zero, unless it is too large.
* `Complex.text`: how a complex number is shown.
-/

namespace MarkupTemplate

/-- A complex number. -/
structure Complex where
  re : Float
  im : Float
deriving Repr, Inhabited

namespace Complex

/-- A float as a complex number. -/
def ofFloat (x : Float) : Complex := ⟨x, 0.0⟩

/-- The sum. -/
def add (a b : Complex) : Complex := ⟨a.re + b.re, a.im + b.im⟩

/-- The difference. -/
def sub (a b : Complex) : Complex := ⟨a.re - b.re, a.im - b.im⟩

/-- The product. -/
def mul (a b : Complex) : Complex :=
  ⟨a.re * b.re - a.im * b.im, a.re * b.im + a.im * b.re⟩

/-- The opposite. -/
def neg (a : Complex) : Complex := ⟨-a.re, -a.im⟩

/-- The quotient, scaled by the larger part of the divisor; `none` when the divisor is zero. -/
def div? (a b : Complex) : Option Complex :=
  if b.re.abs ≥ b.im.abs then
    if b.re == 0.0 then none
    else
      let ratio := b.im / b.re
      let scale := b.re + b.im * ratio
      some ⟨(a.re + a.im * ratio) / scale, (a.im - a.re * ratio) / scale⟩
  else if b.im.abs ≥ b.re.abs then
    let ratio := b.re / b.im
    let scale := b.re * ratio + b.im
    some ⟨(a.re * ratio + a.im) / scale, (a.im * ratio - a.re) / scale⟩
  else some ⟨0.0 / 0.0, 0.0 / 0.0⟩

/-- Multiplies `done` by a power, by repeated squaring of its base. -/
def timesPower (done base : Complex) (n : Nat) : Complex :=
  if _h : n = 0 then done
  else timesPower (if n % 2 = 1 then done.mul base else done) (base.mul base) (n / 2)
termination_by n
decreasing_by omega

/-- A power with a whole exponent; `none` for a negative power of zero. -/
def wholePower? (a : Complex) (n : Int) : Option Complex :=
  let power := timesPower ⟨1.0, 0.0⟩ a n.natAbs
  if 0 < n then some power else div? ⟨1.0, 0.0⟩ power

/-- A power by length and angle; `none` for a negative or complex power of zero, and when the angle
is infinite. -/
def polarPower? (a b : Complex) : Option Complex :=
  if b.re == 0.0 && b.im == 0.0 then some ⟨1.0, 0.0⟩
  else if a.re == 0.0 && a.im == 0.0 then
    if b.im != 0.0 || b.re < 0.0 then none else some ⟨0.0, 0.0⟩
  else
    let size := Decimal.hypotenuse a.re a.im
    let angle := a.im.atan2 a.re
    let scaled := size.pow b.re
    let (length, phase) :=
      if b.im != 0.0 then
        (scaled / (angle * b.im).exp, angle * b.re + b.im * size.log)
      else (scaled, angle * b.re)
    if phase.isInf then none else some ⟨length * phase.cos, length * phase.sin⟩

/-- The largest whole exponent for which a power is a product. -/
def mostFactors : Int := 100

/-- A whole number that a float is, when it is small enough to count factors. -/
def factors? (x : Float) : Option Int :=
  if x.floor == x && x.abs ≤ Float.ofInt mostFactors then
    let n : Int := x.abs.toUInt8.toNat
    some (if x < 0.0 then -n else n)
  else none

/-- A power; `none` for a negative or complex power of zero. -/
def pow? (a b : Complex) : Option Complex :=
  match if b.im == 0.0 then factors? b.re else none with
  | some n => wholePower? a n
  | none => polarPower? a b

/-- True when a part is infinite. -/
def isInfinite (a : Complex) : Bool := a.re.isInf || a.im.isInf

/-- True when a part is no number. -/
def isUndefined (a : Complex) : Bool := a.re.isNaN || a.im.isNaN

/-- The distance from zero; `none` when only the distance is too large for a float. -/
def length? (a : Complex) : Option Float :=
  let d := Decimal.hypotenuse a.re a.im
  if d.isInf && !a.isInfinite then none else some d

/-- A float without a fraction of zero. -/
def partText (x : Float) : String :=
  let s := (Decimal.ofFloat x).toList
  String.ofList (if ['0', '.'].isPrefixOf s.reverse then s.dropLast.dropLast else s)

/-- A complex number as it is shown: its imaginary part alone when the real part is zero. -/
def text (a : Complex) : String :=
  if a.re == 0.0 && !Decimal.isNegative a.re then partText a.im ++ "j"
  else
    let sign := if Decimal.isNegative a.im && !a.im.isNaN then "" else "+"
    "(" ++ partText a.re ++ sign ++ partText a.im ++ "j)"

end Complex

end MarkupTemplate
