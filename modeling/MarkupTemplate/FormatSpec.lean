import MarkupTemplate.Decimal.FloatText
import MarkupTemplate.Failure
import MarkupTemplate.Word

/-!
# Format specs

A format spec says how a number or a text is laid out: fill and alignment, sign, width, separators
between groups of digits, precision and the code of a presentation.

* `FormatSpec.ofText?`: the spec of a text.
* `FormatFault.toFailure`: what can be wrong with a spec, and with a value for a spec.
-/

namespace MarkupTemplate

/-- What can be wrong with a spec, or with a value for a spec. The last ones speak of numbers out of
range. -/
inductive FormatFault where
  | unknownCode (code : Char) (type : String)
  | surplus (spec type : String)
  | missingPrecision
  | bothSeparators
  | separatorWithCode (separator code : Char)
  | tooManyDigits
  | precisionOfInt
  | zeroSignOfInt
  | signOfChar
  | alternateOfChar
  | signOfText
  | blankSignOfText
  | zeroSignOfText
  | alternateOfText
  | signAlignmentOfText
  | zeroPaddingOfComplex
  | signAlignmentOfComplex
  | unsupported (type : String)
  | charRange
  | wordRange
  | precisionTooBig
  | tooWide
  | intTooLarge
  | tooManyIntDigits
deriving DecidableEq, Repr

namespace FormatFault

/-- A character as it is named in a message. -/
def codeText (c : Char) : String :=
  if 32 < c.toNat ∧ c.toNat < 128 then c.toString
  else "\\x" ++ String.ofList (Nat.toDigits 16 c.toNat)

/-- The wording of a fault. -/
def message : FormatFault → String
  | unknownCode code type =>
    "Unknown format code '" ++ codeText code ++ "' for object of type '" ++ type ++ "'"
  | surplus spec type =>
    "Invalid format specifier '" ++ spec ++ "' for object of type '" ++ type ++ "'"
  | missingPrecision => "Format specifier missing precision"
  | bothSeparators => "Cannot specify both ',' and '_'."
  | separatorWithCode separator code =>
    "Cannot specify '" ++ separator.toString ++ "' with '" ++ codeText code ++ "'."
  | tooManyDigits => "Too many decimal digits in format string"
  | precisionOfInt => "Precision not allowed in integer format specifier"
  | zeroSignOfInt => "Negative zero coercion (z) not allowed in integer format specifier"
  | signOfChar => "Sign not allowed with integer format specifier 'c'"
  | alternateOfChar => "Alternate form (#) not allowed with integer format specifier 'c'"
  | signOfText => "Sign not allowed in string format specifier"
  | blankSignOfText => "Space not allowed in string format specifier"
  | zeroSignOfText => "Negative zero coercion (z) not allowed in string format specifier"
  | alternateOfText => "Alternate form (#) not allowed in string format specifier"
  | signAlignmentOfText => "'=' alignment not allowed in string format specifier"
  | zeroPaddingOfComplex => "Zero padding is not allowed in complex format specifier"
  | signAlignmentOfComplex => "'=' alignment flag is not allowed in complex format specifier"
  | unsupported type => "unsupported format string passed to " ++ type ++ ".__format__"
  | charRange => "%c arg not in range(0x110000)"
  | wordRange => "Python int too large to convert to C long"
  | precisionTooBig => "precision too big"
  | tooWide => ""
  | intTooLarge => "int too large to convert to float"
  | tooManyIntDigits => Decimal.tooManyDigits none

/-- The class of host errors that a fault belongs to. -/
def kind : FormatFault → HostErrorKind
  | unsupported _ => .type
  | charRange => .overflow
  | wordRange => .overflow
  | intTooLarge => .overflow
  | tooWide => .memory
  | _ => .value

/-- The failure of a fault. -/
def toFailure (f : FormatFault) : Failure := .raised f.kind f.message

end FormatFault

/-- Where the padding goes; `afterSign` puts it between the sign and the digits. -/
inductive Alignment where
  | left
  | right
  | center
  | afterSign
deriving DecidableEq, Repr, Inhabited

/-- Which sign a number is written with when it is not negative. -/
inductive SignRule where
  | whenNegative
  | always
  | blank
deriving DecidableEq, Repr, Inhabited

/-- A format spec; `givenSign` tells whether the sign rule was written down. -/
structure FormatSpec where
  fill : Char
  align : Alignment
  sign : SignRule
  givenSign : Bool
  dropNegativeZero : Bool
  alternate : Bool
  width : Nat
  separator : Option Char
  precision : Option Nat
  code : Option Char
deriving Repr, Inhabited

namespace FormatSpec

/-- The alignment of a mark. -/
def alignment? : Char → Option Alignment
  | '<' => some .left
  | '>' => some .right
  | '^' => some .center
  | '=' => some .afterSign
  | _ => none

/-- Cuts off a fill character and an alignment. -/
def splitAlignment : List Char → Option Char × Option Alignment × List Char
  | fill :: mark :: rest =>
    match alignment? mark with
    | some a => (some fill, some a, rest)
    | none =>
      match alignment? fill with
      | some a => (none, some a, mark :: rest)
      | none => (none, none, fill :: mark :: rest)
  | [mark] =>
    match alignment? mark with
    | some a => (none, some a, [])
    | none => (none, none, [mark])
  | [] => (none, none, [])

/-- Cuts off a sign rule. -/
def splitSignRule : List Char → Option SignRule × List Char
  | '+' :: rest => (some .always, rest)
  | '-' :: rest => (some .whenNegative, rest)
  | ' ' :: rest => (some .blank, rest)
  | rest => (none, rest)

/-- Cuts off a mark if it comes next. -/
def splitMark (mark : Char) : List Char → Bool × List Char
  | c :: rest => if c = mark then (true, rest) else (false, c :: rest)
  | [] => (false, [])

/-- Cuts off a number, if there is one; numbers have to fit into a machine word. -/
def splitNumber (s : List Char) : Except FormatFault (Option Nat × List Char) :=
  let digits := s.takeWhile Text.isDecimal
  let n := digits.foldl (fun n c => n * 10 + (Text.decimalValue? c).getD 0) 0
  if digits.isEmpty then .ok (none, s)
  else if n < Word.bound 64 then .ok (some n, s.drop digits.length)
  else .error .tooManyDigits

/-- Cuts off the separator of groups of digits. -/
def splitSeparator (s : List Char) : Except FormatFault (Option Char × List Char) :=
  match s with
  | ',' :: '_' :: _ => .error .bothSeparators
  | '_' :: ',' :: _ => .error .bothSeparators
  | ',' :: rest => .ok (some ',', rest)
  | '_' :: rest => .ok (some '_', rest)
  | rest => .ok (none, rest)

/-- Cuts off a precision. -/
def splitPrecision : List Char → Except FormatFault (Option Nat × List Char)
  | '.' :: rest => do
    match ← splitNumber rest with
    | (some n, rest) => return (some n, rest)
    | (none, _) => throw .missingPrecision
  | rest => return (none, rest)

/-- Checks that digits of a presentation may be grouped. -/
def checkSeparator (separator : Option Char) (code : Option Char) : Except FormatFault Unit :=
  match separator, code with
  | some sep, some c =>
    if "deEfFgG%".toList.contains c then .ok ()
    else if sep = '_' ∧ "boxX".toList.contains c then .ok ()
    else .error (.separatorWithCode sep c)
  | _, _ => .ok ()

/-- The spec of a text, read for a value of the named type, with the alignment and the code that
values of that type have by default. -/
def ofText? (type : String) (align : Alignment) (code : Option Char) (text : List Char) :
    Except FormatFault FormatSpec := do
  let (fill, givenAlign, rest) := splitAlignment text
  let (sign, rest) := splitSignRule rest
  let (dropNegativeZero, rest) := splitMark 'z' rest
  let (alternate, rest) := splitMark '#' rest
  let (zero, rest) := if fill.isNone then splitMark '0' rest else (false, rest)
  let (width, rest) ← splitNumber rest
  let (separator, rest) ← splitSeparator rest
  let (precision, rest) ← splitPrecision rest
  if rest.length > 1 then throw (.surplus (String.ofList text) type)
  let code := rest.head?.or code
  checkSeparator separator code
  let padding := if zero && align == .right then .afterSign else align
  return {
    fill := fill.getD (if zero then '0' else ' ')
    align := givenAlign.getD padding
    sign := sign.getD .whenNegative
    givenSign := sign.isSome
    dropNegativeZero
    alternate
    width := width.getD 0
    separator
    precision
    code }

end FormatSpec

end MarkupTemplate
