import MarkupTemplate.Decimal.Shortest
import MarkupTemplate.Text.Lines

/-!
# Numbers as text

How numbers are shown without a format spec, and how they are read. A float is shown with the
fewest digits that read back, positionally from `10 ^ -4` up to below `10 ^ 16`, else with an
exponent of at least two digits.

* `ofFloat`: the text of a float.
* `toFloat?`: the float that a text spells.
* `intText`: the text of an integer.
* `maxDigits`: the most digits that an integer is written or read with in base ten.
-/

namespace MarkupTemplate.Decimal

/-- The digits of a number in base ten. -/
def digitsOfNat (n : Nat) : List Char := Nat.toDigits 10 n

/-- An integer in base ten. -/
def intText (n : Int) : String :=
  let digits := digitsOfNat n.natAbs
  String.ofList (if n < 0 then '-' :: digits else digits)

/-- The most digits that an integer is written or read with in base ten. -/
def maxDigits : Nat := 4300

/-- What is said of an integer with too many digits, whose number may be told. -/
def tooManyDigits (count : Option Nat) : String :=
  let told := match count with
    | some n => ": value has " ++ toString n ++ " digits"
    | none => ""
  "Exceeds the limit (" ++ toString maxDigits ++ " digits) for integer string conversion" ++ told
    ++ "; use sys.set_int_max_str_digits() to increase the limit"

/-- The digits of a decimal, as many as it counts. -/
def Digits.chars (d : Digits) : List Char := Text.padLeft d.count '0' (digitsOfNat d.digits)

/-- A signed exponent with at least two digits. -/
def exponentText (e : Int) : List Char :=
  'e' :: (if e < 0 then '-' else '+') :: Text.padLeft 2 '0' (digitsOfNat e.natAbs)

/-- Digits written positionally; `exponent` is that of the first of them. Without a fraction one
zero follows the point. -/
def positional (digits : List Char) (exponent : Int) : List Char :=
  if exponent < 0 then
    '0' :: '.' :: List.replicate (-exponent - 1).toNat '0' ++ digits
  else
    let whole := (exponent + 1).toNat
    if digits.length ≤ whole then
      digits ++ List.replicate (whole - digits.length) '0' ++ ['.', '0']
    else digits.take whole ++ '.' :: digits.drop whole

/-- Digits written with an exponent; a point only before further digits. -/
def scientific (digits : List Char) (exponent : Int) : List Char :=
  match digits with
  | [] => []
  | [d] => d :: exponentText exponent
  | d :: more => d :: '.' :: more ++ exponentText exponent

/-- The text of a positive number. -/
def shortestText (b : Binary) : List Char :=
  let d := Shortest.digits b
  if -4 ≤ d.exponent ∧ d.exponent < 16 then positional d.chars d.exponent
  else scientific d.chars d.exponent

/-- The text of a float. -/
def ofFloat (x : Float) : String :=
  let sign := if isNegative x then ['-'] else []
  match Binary.ofFloat? x with
  | some b =>
    String.ofList (sign ++ if b.mantissa = 0 then ['0', '.', '0'] else shortestText b)
  | none => if x.isNaN then "nan" else String.ofList (sign ++ "inf".toList)

/-! ## Reading -/

/-- Digits in which single underscores may stand between two digits; answers them without. -/
def ungroup (isDigit : Char → Bool) : List Char → Option (List Char)
  | [] => none
  | [c] => if isDigit c then some [c] else none
  | c :: '_' :: rest => if isDigit c then (ungroup isDigit rest).map (c :: ·) else none
  | c :: rest => if isDigit c then (ungroup isDigit rest).map (c :: ·) else none

/-- The number that decimal digits spell. -/
def natOf (digits : List Char) : Nat :=
  digits.foldl (fun n c => n * 10 + ((Text.decimalValue? c).getD 0)) 0

/-- The float nearest to `mantissa · 10 ^ exponent`. -/
def floatOfScientific (mantissa : Nat) (exponent : Int) : Float :=
  if exponent < 0 then
    if exponent < -2000 - mantissa.log2 then 0.0
    else Float.ofScientific mantissa true exponent.natAbs
  else if mantissa = 0 then 0.0
  else if exponent > 400 then 1.0 / 0.0
  else Float.ofScientific mantissa false exponent.toNat

/-- Cuts a sign off. -/
def splitSign : List Char → Bool × List Char
  | '-' :: rest => (true, rest)
  | '+' :: rest => (false, rest)
  | rest => (false, rest)

/-- The float that digits with an optional point and exponent spell. -/
def unsignedFloat? (s : List Char) : Option Float := do
  let isMark (c : Char) : Bool := c == 'e' || c == 'E'
  let number := s.takeWhile (!isMark ·)
  let exponentPart := (s.dropWhile (!isMark ·)).drop 1
  let exponent ←
    if number.length = s.length then some 0
    else
      let (negative, digits) := splitSign exponentPart
      (ungroup Text.isDecimal digits).map fun ds =>
        if negative then -(natOf ds : Int) else (natOf ds : Int)
  let whole := number.takeWhile (· != '.')
  let fraction := (number.dropWhile (· != '.')).drop 1
  let wholeDigits ← if whole.isEmpty then some [] else ungroup Text.isDecimal whole
  let fractionDigits ← if fraction.isEmpty then some [] else ungroup Text.isDecimal fraction
  if wholeDigits.isEmpty && fractionDigits.isEmpty then none
  else
    some (floatOfScientific (natOf (wholeDigits ++ fractionDigits))
      (exponent - fractionDigits.length))

/-- The float that a text without blanks at its ends spells. -/
def toFloat? (s : List Char) : Option Float :=
  let (negative, rest) := splitSign s
  let lower := rest.map Char.toLower
  let value :=
    if lower = "inf".toList ∨ lower = "infinity".toList then some (1.0 / 0.0)
    else if lower = "nan".toList then some (0.0 / 0.0)
    else unsignedFloat? rest
  value.map fun x => if negative then -x else x

end MarkupTemplate.Decimal
