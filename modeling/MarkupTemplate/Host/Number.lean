import MarkupTemplate.Decimal.Nearest
import MarkupTemplate.Host.Object
import MarkupTemplate.Text.Quoted
import MarkupTemplate.Word

/-!
# Arithmetic

The numbers among the values: whole numbers without a bound, truth values among them, floats and
complex numbers. When two kinds meet, the number of the narrower kind is taken as one of the wider.

* `Number.apply`: an operator on two numbers, `none` when it is not defined for them.
* `Number.compare?`: exact comparison of real numbers, also between whole numbers and floats.
* `Number.isEqual`: exact equality.
-/

namespace MarkupTemplate

/-- A value used as a number. -/
inductive Number where
  | int (n : Int)
  | float (x : Float)
  | complex (z : Complex)
deriving Inhabited

/-- The number that a value can be used as. -/
def Value.number? : Value → Option Number
  | .bool b => some (.int (if b then 1 else 0))
  | .int n => some (.int n)
  | .float x _ => some (.float x)
  | .complex z _ => some (.complex z)
  | _ => Option.none

/-- The number that a value can be used as, unless it is complex. -/
def Value.real? (v : Value) : Option Number :=
  match v.number? with
  | some (.complex _) => Option.none
  | n => n

/-- The whole number that a value can be used as. -/
def Value.int? (v : Value) : Option Int :=
  match v.number? with
  | some (.int n) => some n
  | _ => Option.none

namespace Number

/-- The value of a number that was computed. -/
def toValue : Number → Action Value
  | int n => pure (.int n)
  | float x => Object.newFloat x
  | complex z => Object.newComplex z

/-- A number as a float, if it is not too large; of a complex number the real part. -/
def toFloat : Number → Except Failure Float
  | float x => .ok x
  | int n =>
    let x := Decimal.floatOfInt n
    if x.isInf then .error (.raised .overflow "int too large to convert to float") else .ok x
  | complex z => .ok z.re

/-- A number as a complex number, if it is not too large. -/
def toComplex : Number → Except Failure Complex
  | complex z => .ok z
  | n => do return .ofFloat (← n.toFloat)

/-! ## Bits -/

/-- The bits that two whole numbers share, negative ones having all bits set beyond their own. -/
def bitAnd : Int → Int → Int
  | .ofNat a, .ofNat b => .ofNat (a &&& b)
  | .ofNat a, .negSucc b => .ofNat (a - (a &&& b))
  | .negSucc a, .ofNat b => .ofNat (b - (b &&& a))
  | .negSucc a, .negSucc b => .negSucc (a ||| b)

/-- The bits that are set in either of two whole numbers. -/
def bitOr (a b : Int) : Int := ~~~bitAnd (~~~a) (~~~b)

/-- The bits in which two whole numbers differ. -/
def bitXor (a b : Int) : Int := bitOr a b - bitAnd a b

/-! ## Floats -/

/-- The exact remainder of two finite floats, with the sign of the first. -/
def remainder (x y : Float) : Float :=
  match Decimal.Binary.ofFloat? x, Decimal.Binary.ofFloat? y with
  | some a, some b =>
    let low := min a.exponent b.exponent
    let m := a.mantissa * Nat.pow 2 (a.exponent - low).toNat
    let n := b.mantissa * Nat.pow 2 (b.exponent - low).toNat
    let r := m % n
    let size := r.log2 - 63
    let z := ((UInt64.ofNat (r >>> size)).toFloat).scaleB (low + size)
    if Decimal.isNegative x then -z else z
  | some _, none => if y.isNaN then y else x
  | none, _ => 0.0 / 0.0

/-- A float with the sign of another. -/
def withSign (x sign : Float) : Float :=
  if Decimal.isNegative x == Decimal.isNegative sign then x else -x

/-- Quotient rounded down and remainder with the sign of the divisor. -/
def floatDivMod (x y : Float) : Float × Float :=
  let r := remainder x y
  let q := (x - r) / y
  let (q, r) :=
    if r != 0.0 then if (y < 0.0) != (r < 0.0) then (q - 1.0, r + y) else (q, r)
    else (q, withSign 0.0 y)
  let whole :=
    if q != 0.0 then
      let f := q.floor
      if q - f > 0.5 then f + 1.0 else f
    else withSign 0.0 (x / y)
  (whole, r)

/-- A power of complex numbers. -/
def complexPower (a b : Complex) : Except Failure Number :=
  match a.pow? b with
  | none => .error (.raised .zeroDivision "0.0 to a negative or complex power")
  | some z =>
    if z.isInfinite then .error (.raised .overflow "complex exponentiation")
    else .ok (.complex z)

/-- The operators on complex numbers. -/
def complexOps : List Host.BinaryOp := [.add, .sub, .mul, .div, .pow]

/-- An operator on complex numbers. -/
def applyComplex (op : Host.BinaryOp) (a b : Complex) : Except Failure (Option Number) :=
  let done (z : Complex) : Except Failure (Option Number) := .ok (some (.complex z))
  match op with
  | .add => done (a.add b)
  | .sub => done (a.sub b)
  | .mul => done (a.mul b)
  | .div =>
    match a.div? b with
    | some z => done z
    | none => .error (.raised .zeroDivision "complex division by zero")
  | .pow => some <$> complexPower a b
  | _ => .ok none

/-- The operators on floats. -/
def floatOps : List Host.BinaryOp := [.floorDiv, .mod] ++ complexOps

/-- True of a finite number with a fraction. -/
def isFractional (x : Float) : Bool := x.isFinite && x.floor != x

/-- An operator on floats. A negative number to a power that is not whole is complex. -/
def applyFloat (op : Host.BinaryOp) (x y : Float) : Except Failure (Option Number) :=
  let zero (text : String) : Except Failure (Option Number) := .error (.raised .zeroDivision text)
  let done (z : Float) : Except Failure (Option Number) := .ok (some (.float z))
  match op with
  | .add => done (x + y)
  | .sub => done (x - y)
  | .mul => done (x * y)
  | .div => if y == 0.0 then zero "float division by zero" else done (x / y)
  | .floorDiv =>
    if y == 0.0 then zero "float floor division by zero" else done (floatDivMod x y).1
  | .mod => if y == 0.0 then zero "float modulo" else done (floatDivMod x y).2
  | .pow =>
    if x == 0.0 && y < 0.0 then zero "0.0 cannot be raised to a negative power"
    else if x < 0.0 && x.isFinite && isFractional y then
      some <$> complexPower (.ofFloat x) (.ofFloat y)
    else
      let z := x.pow y
      if z.isInf && !x.isInf && !y.isInf then
        .error (.raised .overflow "(34, 'Numerical result out of range')")
      else done z
  | _ => .ok none

/-! ## Whole numbers -/

/-- The most bits of a number that fit in memory. -/
def maxBits : Nat := Nat.pow 2 36

/-- A number shifted to the left by a number of bits that is not negative. -/
def shiftedLeft (a : Int) (bits : Nat) : Except Failure Int :=
  if a = 0 then .ok 0
  else if 30 * Word.bound 64 ≤ bits then .error (.raised .overflow "too many digits in integer")
  else if maxBits ≤ bits then .error (.raised .memory "")
  else .ok (a * (Nat.pow 2 bits : Nat))

/-- A whole power. -/
def power (a : Int) (n : Nat) : Except Failure Int :=
  if a.natAbs ≤ 1 then .ok (if n = 0 then 1 else if n % 2 = 0 then a * a else a)
  else if maxBits ≤ a.natAbs.log2 * n then .error (.raised .memory "")
  else .ok (Int.pow a n)

/-- An operator on whole numbers. -/
def applyInt (op : Host.BinaryOp) (a b : Int) : Except Failure (Option Number) :=
  let zero (text : String) : Except Failure (Option Number) := .error (.raised .zeroDivision text)
  let done (n : Int) : Except Failure (Option Number) := .ok (some (.int n))
  match op with
  | .add => done (a + b)
  | .sub => done (a - b)
  | .mul => done (a * b)
  | .div =>
    if b = 0 then zero "division by zero"
    else
      let x := Decimal.floatOfRatio a.natAbs b.natAbs
      if x.isInf then
        .error (.raised .overflow "integer division result too large for a float")
      else .ok (some (.float (if (a < 0) != (b < 0) then -x else x)))
  | .floorDiv =>
    if b = 0 then zero "integer division or modulo by zero" else done (a.fdiv b)
  | .mod => if b = 0 then zero "integer modulo by zero" else done (a.fmod b)
  | .pow =>
    if 0 ≤ b then do done (← power a b.toNat)
    else do
      let x ← toFloat (.int a)
      let y ← toFloat (.int b)
      applyFloat .pow x y
  | .shiftLeft =>
    if b < 0 then .error (.raised .value "negative shift count")
    else do done (← shiftedLeft a b.toNat)
  | .shiftRight =>
    if b < 0 then .error (.raised .value "negative shift count")
    else done (a.fdiv (Nat.pow 2 (min b.toNat (a.natAbs.log2 + 1)) : Nat))
  | .bitAnd => done (bitAnd a b)
  | .bitOr => done (bitOr a b)
  | .bitXor => done (bitXor a b)
  | .matMul => .ok none

/-- An operator on numbers; `none` when it is not defined for them. -/
def apply (op : Host.BinaryOp) : Number → Number → Except Failure (Option Number)
  | int a, int b => applyInt op a b
  | complex a, b =>
    if complexOps.contains op then do applyComplex op a (← b.toComplex) else .ok none
  | a, complex b =>
    if complexOps.contains op then do applyComplex op (← a.toComplex) b else .ok none
  | a, b => if floatOps.contains op then do applyFloat op (← a.toFloat) (← b.toFloat) else .ok none

/-! ## Comparison -/

/-- The order of a whole number and a float; `none` when the float is no number. -/
def compareIntFloat (n : Int) (x : Float) : Option Ordering :=
  match Decimal.Binary.ofFloat? x with
  | some b =>
    let (num, den) := b.scaled 0
    let m : Int := if Decimal.isNegative x then -num else num
    some (Ord.compare (n * den) m)
  | none =>
    if x.isNaN then none else if Decimal.isNegative x then some .gt else some .lt

/-- The order of two numbers; `none` when one of them is no number or complex. -/
def compare? : Number → Number → Option Ordering
  | int a, int b => some (Ord.compare a b)
  | int a, float y => compareIntFloat a y
  | float x, int b => (compareIntFloat b x).map Ordering.swap
  | float x, float y =>
    if x < y then some .lt else if x == y then some .eq else if y < x then some .gt else none
  | _, _ => none

/-- Whether two numbers are equal. A complex number equals a real one when its imaginary part is
zero and its real part equals it. -/
def isEqual : Number → Number → Bool
  | complex a, complex b => a.re == b.re && a.im == b.im
  | complex a, b => a.im == 0.0 && compare? (float a.re) b == some .eq
  | a, complex b => b.im == 0.0 && compare? a (float b.re) == some .eq
  | a, b => compare? a b == some .eq

/-- The whole part of a float. -/
def truncateFloat (x : Float) : Except Failure Int :=
  match Decimal.Binary.ofFloat? x with
  | some b =>
    let (num, den) := b.scaled 0
    .ok (if Decimal.isNegative x then -((num / den : Nat) : Int) else (num / den : Nat))
  | none =>
    if x.isNaN then .error (.raised .value "cannot convert float NaN to integer")
    else .error (.raised .overflow "cannot convert float infinity to integer")

/-- The whole part of a number, of a complex one that of its real part. -/
def truncate : Number → Except Failure Int
  | int n => .ok n
  | float x => truncateFloat x
  | complex z => truncateFloat z.re

/-- The float that a text spells, blanks at its ends aside. -/
def floatOfText (s : String) : Except Failure Float :=
  match Decimal.toFloat? (Text.trim s.toList) with
  | some x => .ok x
  | none =>
    .error (.raised .value ("could not convert string to float: " ++ Text.quote s))

end Number

end MarkupTemplate
