import MarkupTemplate.Decimal.Exact

/-!
# Shortest decimals

The decimal with the fewest digits that reads back as a given binary floating point number; of two
such decimals the nearer one.

* `Shortest.digits`: the digits and the exponent of the first of them.
* `Shortest.inside`: whether a decimal reads back as the number.
-/

namespace MarkupTemplate.Decimal

/-- A positive decimal `d₀.d₁d₂… · 10 ^ exponent`, its digits read as one number. -/
structure Digits where
  digits : Nat
  count : Nat
  exponent : Int
deriving Repr, DecidableEq

namespace Shortest

/-- True when `n · 10 ^ unit` reads back as the number: it lies between the midpoints to the two
neighbours, which count when the mantissa is even. -/
def inside (b : Binary) (n : Nat) (unit : Int) : Bool :=
  let (num, den) := Binary.scaled ⟨1, b.exponent - 2, false⟩ (-unit)
  let candidate := n * den
  let low := (4 * b.mantissa - (if b.narrowBelow then 1 else 2)) * num
  let high := (4 * b.mantissa + 2) * num
  if b.mantissa % 2 = 0 then decide (low ≤ candidate) && decide (candidate ≤ high)
  else decide (low < candidate) && decide (candidate < high)

/-- The decimal of `count` digits that reads back, the nearer of two. -/
def ofCount? (b : Binary) (first : Int) (count : Nat) : Option Digits :=
  let unit := first - (count - 1)
  let (num, den) := b.scaled (-unit)
  let below := num / den
  let low := if below > 0 && inside b below unit then some below else none
  let high := if inside b (below + 1) unit then some (below + 1) else none
  let pick := match low, high with
    | some l, some h => some (if roundDiv num den = below then l else h)
    | some l, none => some l
    | none, h => h
  pick.map fun n =>
    if n = Nat.pow 10 count then ⟨Nat.pow 10 (count - 1), count, first + 1⟩
    else ⟨n, count, first⟩

/-- The first number of digits from `count` on with a decimal that reads back. -/
def search (b : Binary) (first : Int) : Nat → Nat → Digits
  | 0, count =>
    let (num, den) := b.scaled (count - 1 - first)
    ⟨roundDiv num den, count, first⟩
  | fuel + 1, count =>
    match ofCount? b first count with
    | some d => d
    | none => search b first fuel (count + 1)

/-- The shortest decimal that reads back as a positive number: at most seventeen digits. -/
def digits (b : Binary) : Digits := search b b.decimalExponent 16 1

end Shortest

end MarkupTemplate.Decimal
