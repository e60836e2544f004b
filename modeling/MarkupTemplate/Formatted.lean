import MarkupTemplate.Complex
import MarkupTemplate.Decimal.Rounded
import MarkupTemplate.FormatSpec

/-!
# Formatted numbers and texts

Integers, floats, complex numbers and texts laid out by a format spec.

* `Formatted.int`, `Formatted.float`, `Formatted.complex`, `Formatted.text`: a value laid out by the
  text of a spec.
* `Formatted.grouped`: digits in groups, filled up with zeros.
-/

namespace MarkupTemplate.Formatted

open Decimal

/-- A number before layout: its sign, what stands between sign and digits, the digits that may be
grouped, and the rest. -/
structure Parts where
  negative : Bool
  opening : List Char
  digits : List Char
  rest : List Char

/-- Digits, last one first, in groups of `size`, with zeros added until the groups and their
separators fill `width`. -/
def groupedFrom (size : Nat) (separator : Char) : Nat → Int → List Char → List Char
  | 0, _, digits => digits
  | fuel + 1, width, digits =>
    let len := min size (max digits.length (max width.toNat 1))
    let group := digits.take len ++ List.replicate (len - digits.length) '0'
    let rest := digits.drop len
    let left := width - len
    if rest.isEmpty && left ≤ 0 then group
    else group ++ separator :: groupedFrom size separator fuel (left - 1) rest

/-- Digits with separators, filled up with zeros to a width. -/
def grouped (size : Nat) (separator : Option Char) (width : Int) (digits : List Char) : List Char :=
  match separator with
  | none => Text.padLeft (max width.toNat 1) '0' digits
  | some sep =>
    let fuel := digits.length + width.toNat + 1
    (groupedFrom size sep fuel width digits.reverse).reverse

/-- The padding before and after a text that is `len` long. -/
def padding (spec : FormatSpec) (len : Nat) : List Char × List Char :=
  let n := spec.width - len
  match spec.align with
  | .left => ([], List.replicate n spec.fill)
  | .center => (List.replicate (n / 2) spec.fill, List.replicate (n - n / 2) spec.fill)
  | _ => (List.replicate n spec.fill, [])

/-- The width from which on a text does not fit in memory. -/
def maxWidth : Nat := Nat.pow 2 36

/-- Checks that a width fits in memory. -/
def checkWidth (width : Nat) : Except FormatFault Unit :=
  if width < maxWidth then .ok () else .error .tooWide

/-- Checks that the precision of a float is a machine word. -/
def checkPrecision (precision : Option Nat) : Except FormatFault Unit :=
  match precision with
  | some p => if p < Word.bound 32 then .ok () else .error .precisionTooBig
  | none => .ok ()

/-- The sign that a number is written with. -/
def signOf (rule : SignRule) (negative : Bool) : List Char :=
  if negative then ['-']
  else match rule with
  | .whenNegative => []
  | .always => ['+']
  | .blank => [' ']

/-- A number laid out by a spec whose groups have the given size. -/
def number (spec : FormatSpec) (size : Nat) (p : Parts) : List Char :=
  let sign := signOf spec.sign p.negative
  let fixed := sign.length + p.opening.length + p.rest.length
  let zeros : Int :=
    if spec.fill = '0' ∧ spec.align = .afterSign then (spec.width : Int) - fixed else 0
  let digits := if p.digits.isEmpty then [] else grouped size spec.separator zeros p.digits
  let (before, after) := padding spec (fixed + digits.length)
  if spec.align = .afterSign then sign ++ p.opening ++ before ++ digits ++ p.rest
  else before ++ sign ++ p.opening ++ digits ++ p.rest ++ after

/-! ## Floats -/

/-- A decimal with its exponent written out. -/
def scientificParts (alternate : Bool) (mark : Char) (digits : List Char) (exponent : Int) :
    List Char × List Char :=
  let fraction := digits.drop 1
  let point := if fraction.isEmpty && !alternate then [] else '.' :: fraction
  (digits.take 1, point ++ mark :: (exponentText exponent).drop 1)

/-- A decimal with its point in place; `exponent` is that of the first digit. With `dotZero` at
least one decimal follows. -/
def positionalParts (alternate dotZero : Bool) (digits : List Char) (exponent : Int) :
    List Char × List Char :=
  let digits := List.replicate (-exponent).toNat '0' ++ digits
  let whole := exponent.toNat + 1
  let digits := digits ++ List.replicate (whole - digits.length) '0'
  let fraction := digits.drop whole
  let fraction := if fraction.isEmpty && dotZero then ['0'] else fraction
  (digits.take whole, if fraction.isEmpty && !alternate then [] else '.' :: fraction)

/-- Digits without the zeros at their end, at least one of them. -/
def dropZeros (digits : List Char) : List Char :=
  match (digits.reverse.dropWhile (· == '0')).reverse with
  | [] => ['0']
  | kept => kept

/-- The digits of a number for the general presentation: positional unless the exponent is small
or reaches the precision. -/
def generalParts (alternate dotZero : Bool) (mark : Char) (precision : Nat) (b : Binary) :
    List Char × List Char :=
  let precision := max precision 1
  let d := Rounded.leading b precision
  let digits := if alternate then d.chars else dropZeros d.chars
  let limit : Int := if dotZero then (precision : Int) - 1 else precision
  if d.exponent < -4 ∨ limit ≤ d.exponent then scientificParts alternate mark digits d.exponent
  else positionalParts alternate dotZero digits d.exponent

/-- The shortest digits that read back, laid out as without a spec. -/
def shortestParts (alternate : Bool) (b : Binary) : List Char × List Char :=
  let d := if b.mantissa = 0 then ⟨0, 1, 0⟩ else Shortest.digits b
  if d.exponent < -4 ∨ 16 ≤ d.exponent then scientificParts alternate 'e' d.chars d.exponent
  else positionalParts alternate true d.chars d.exponent

/-- The digits of a finite number by a code. -/
def finiteParts (spec : FormatSpec) (b : Binary) : List Char × List Char :=
  let precision := spec.precision.getD 6
  match spec.code with
  | none =>
    match spec.precision with
    | none => shortestParts spec.alternate b
    | some p => generalParts spec.alternate true 'e' p b
  | some 'e' =>
    let d := Rounded.leading b (precision + 1)
    scientificParts spec.alternate 'e' d.chars d.exponent
  | some 'E' =>
    let d := Rounded.leading b (precision + 1)
    scientificParts spec.alternate 'E' d.chars d.exponent
  | some 'g' => generalParts spec.alternate false 'e' precision b
  | some 'n' => generalParts spec.alternate false 'e' precision b
  | some 'G' => generalParts spec.alternate false 'E' precision b
  | _ =>
    let (whole, fraction) := Rounded.fixedChars b precision
    (whole, if fraction.isEmpty && !spec.alternate then [] else '.' :: fraction)

/-- True when no digit but zero is written before the exponent. -/
def isZero (digits rest : List Char) : Bool :=
  (digits ++ rest.takeWhile fun c => c != 'e' && c != 'E').all fun c => c == '0' || c == '.'

/-- A float before layout. -/
def floatParts (spec : FormatSpec) (x : Float) : Parts :=
  let upper := spec.code == some 'E' || spec.code == some 'F' || spec.code == some 'G'
  let percent := spec.code == some '%'
  let x := if percent then x * 100 else x
  let tail := if percent then ['%'] else []
  match Binary.ofFloat? x with
  | some b =>
    let (digits, rest) := finiteParts spec b
    let negative := isNegative x && !(spec.dropNegativeZero && isZero digits rest)
    ⟨negative, [], digits, rest ++ tail⟩
  | none =>
    let word := if x.isNaN then "nan" else "inf"
    let word := if upper then word.toUpper else word
    ⟨isNegative x && !x.isNaN, [], [], word.toList ++ tail⟩

/-- The codes of the presentations of floats. -/
def floatCodes : List Char := "eEfFgGn%".toList

/-- A float of the named type laid out by a spec. -/
def floatBySpec (type : String) (spec : FormatSpec) (x : Float) :
    Except FormatFault (List Char) := do
  match spec.code with
  | some c => if !floatCodes.contains c then throw (.unknownCode c type)
  | none => pure ()
  checkPrecision spec.precision
  checkWidth spec.width
  return number spec 3 (floatParts spec x)

/-- A float laid out by the text of a spec. -/
def float (spec : List Char) (x : Float) : Except FormatFault String := do
  if spec.isEmpty then return ofFloat x
  let spec ← FormatSpec.ofText? "float" .right none spec
  return String.ofList (← floatBySpec "float" spec x)

/-! ## Complex numbers -/

/-- The codes of the presentations of complex numbers. -/
def complexCodes : List Char := "eEfFgGn".toList

/-- The shortest digits that read back, without a fraction of zero. -/
def barePart (spec : FormatSpec) (x : Float) : Parts :=
  match Binary.ofFloat? x with
  | some b =>
    let d := if b.mantissa = 0 then ⟨0, 1, 0⟩ else Shortest.digits b
    let (digits, rest) :=
      if d.exponent < -4 ∨ 16 ≤ d.exponent then
        scientificParts spec.alternate 'e' d.chars d.exponent
      else positionalParts spec.alternate false d.chars d.exponent
    ⟨isNegative x && !(spec.dropNegativeZero && b.mantissa = 0), [], digits, rest⟩
  | none => floatParts spec x

/-- A part of a complex number before layout. Without a code the digits are the shortest ones, or
those of the general presentation when there is a precision. -/
def complexPart (spec : FormatSpec) (x : Float) : Parts :=
  match spec.code, spec.precision with
  | none, none => barePart spec x
  | none, some _ => floatParts { spec with code := some 'g' } x
  | some _, _ => floatParts spec x

/-- A complex number laid out by a spec: the parts side by side, the width filled up around them.
Without a code they stand in parentheses, and a real part of zero is left out. -/
def complexBySpec (spec : FormatSpec) (z : Complex) : Except FormatFault (List Char) := do
  match spec.code with
  | some c => if !complexCodes.contains c then throw (.unknownCode c "complex")
  | none => pure ()
  if spec.fill = '0' then throw .zeroPaddingOfComplex
  if spec.align = .afterSign then throw .signAlignmentOfComplex
  checkPrecision spec.precision
  checkWidth spec.width
  let bare := { spec with width := 0, align := .left, fill := ' ' }
  let alone := spec.code.isNone && z.re == 0.0 && !isNegative z.re
  let imaginary (sign : SignRule) : List Char :=
    number { bare with sign } 3 (complexPart spec z.im) ++ ['j']
  let shown :=
    if alone then imaginary spec.sign
    else
      let both := number bare 3 (complexPart spec z.re) ++ imaginary .always
      if spec.code.isNone then '(' :: both ++ [')'] else both
  let (before, after) := padding spec shown.length
  return before ++ shown ++ after

/-- A complex number laid out by the text of a spec. -/
def complex (spec : List Char) (z : Complex) : Except FormatFault String := do
  if spec.isEmpty then return z.text
  let spec ← FormatSpec.ofText? "complex" .right none spec
  return String.ofList (← complexBySpec spec z)

/-! ## Integers -/

/-- The decimal text of an integer. -/
def decimalText (n : Int) : Except FormatFault String :=
  if n.natAbs < Nat.pow 10 maxDigits then .ok (intText n) else .error .tooManyIntDigits

/-- An integer in a base before layout. -/
def intParts (spec : FormatSpec) (base : Nat) (mark : Option Char) (upper : Bool) (n : Int) :
    Parts :=
  let up (s : List Char) : List Char := if upper then s.map Char.toUpper else s
  let opening := match mark with
    | some c => if spec.alternate then ['0', c] else []
    | none => []
  ⟨n < 0, up opening, up (Nat.toDigits base n.natAbs), []⟩

/-- A character given by its code, laid out by a spec. -/
def charBySpec (spec : FormatSpec) (n : Int) : Except FormatFault (List Char) :=
  if spec.givenSign then .error .signOfChar
  else if spec.alternate then .error .alternateOfChar
  else if 0 ≤ n ∧ n < 0x110000 then do
    checkWidth spec.width
    return number spec 3 ⟨false, [], [], [Char.ofNat n.toNat]⟩
  else if Word.holds 64 n then .error .charRange
  else .error .wordRange

/-- An integer of the named type laid out by a spec. -/
def intBySpec (type : String) (spec : FormatSpec) (n : Int) : Except FormatFault (List Char) := do
  let code := spec.code.getD 'd'
  if "bcdoxXn".toList.contains code then
    if spec.precision.isSome then throw .precisionOfInt
    if spec.dropNegativeZero then throw .zeroSignOfInt
    if code = 'c' then charBySpec spec n
    else
      if "dn".toList.contains code then let _ ← decimalText n
      checkWidth spec.width
      match code with
      | 'b' => return number spec 4 (intParts spec 2 'b' false n)
      | 'o' => return number spec 4 (intParts spec 8 'o' false n)
      | 'x' => return number spec 4 (intParts spec 16 'x' false n)
      | 'X' => return number spec 4 (intParts spec 16 'x' true n)
      | _ => return number spec 3 (intParts spec 10 none false n)
  else if floatCodes.contains code then
    let x := floatOfInt n
    if x.isInf then throw .intTooLarge
    floatBySpec type spec x
  else throw (.unknownCode code type)

/-- An integer of the named type laid out by the text of a spec that is not empty. -/
def int (type : String) (spec : List Char) (n : Int) : Except FormatFault String := do
  let spec ← FormatSpec.ofText? type .right (some 'd') spec
  return String.ofList (← intBySpec type spec n)

/-! ## Texts -/

/-- A text laid out by the text of a spec. -/
def text (spec : List Char) (s : String) : Except FormatFault String := do
  if spec.isEmpty then return s
  let spec ← FormatSpec.ofText? "str" .left (some 's') spec
  let code := spec.code.getD 's'
  if code != 's' then throw (.unknownCode code "str")
  if spec.givenSign then throw (if spec.sign = .blank then .blankSignOfText else .signOfText)
  if spec.dropNegativeZero then throw .zeroSignOfText
  if spec.alternate then throw .alternateOfText
  if spec.align = .afterSign then throw .signAlignmentOfText
  checkWidth spec.width
  let chars := match spec.precision with
    | some p => s.toList.take p
    | none => s.toList
  let (before, after) := padding spec chars.length
  return String.ofList (before ++ chars ++ after)

end MarkupTemplate.Formatted
