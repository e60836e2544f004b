import MarkupTemplate.Host.Item

/-!
# Filling in fields

A text may hold fields that open with a percent sign; the operator `%` fills them with the values on
its right, one after another or, for fields with a key, by key.

* `Percent.fill`: a text with its fields filled in.
-/

namespace MarkupTemplate.Host.Percent

/-- A field: its flags, width and precision, and the code of its presentation. -/
structure Field where
  flags : List Char
  width : Nat
  precision : Option Nat
  code : Char

/-- The layout that the flags of a field ask for. -/
def specOf (f : Field) (numeric : Bool) : FormatSpec :=
  let left := f.flags.contains '-'
  let zero := numeric && f.flags.contains '0' && !left
  { fill := if zero then '0' else ' '
    align := if left then .left else if zero then .afterSign else .right
    sign := if f.flags.contains '+' then .always
      else if f.flags.contains ' ' then .blank else .whenNegative
    givenSign := false
    dropNegativeZero := false
    alternate := f.flags.contains '#'
    width := f.width
    separator := none
    precision := f.precision
    code := some f.code }

/-- A text laid out in a field. -/
def inField (f : Field) (s : List Char) : List Char :=
  let s := match f.precision with
    | some p => s.take p
    | none => s
  let (before, after) := Formatted.padding (specOf f false) s.length
  before ++ s ++ after

/-- A whole number laid out in a field. -/
def intInField (f : Field) (n : Int) : Action (List Char) := do
  unless ['x', 'X', 'o'].contains f.code do
    let _ ← Display.ofFormatted (Formatted.decimalText n)
  let spec := specOf f true
  let parts := match f.code with
    | 'x' => Formatted.intParts spec 16 'x' false n
    | 'X' => Formatted.intParts spec 16 'x' true n
    | 'o' => Formatted.intParts spec 8 'o' false n
    | _ => Formatted.intParts spec 10 none false n
  let digits := Text.padLeft (f.precision.getD 1) '0' parts.digits
  return Formatted.number spec 3 { parts with digits }

/-- A number laid out in a field. -/
def numberInField (f : Field) (v : Value) : Action (List Char) := do
  let integral := ['x', 'X', 'o'].contains f.code
  match v.number? with
  | some (.int n) => intInField f n
  | some (.float x) =>
    if integral then unsuitable "an integer"
    else intInField f (← Action.ofExcept (Number.truncateFloat x))
  | _ => unsuitable (if integral then "an integer" else "a real number")
where
  /-- Fails because the value is no number that fits. -/
  unsuitable (wanted : String) : Action (List Char) := do
    Action.raise .type ("%" ++ f.code.toString ++ " format: " ++ wanted ++ " is required, not "
      ++ (← Object.typeName v))

/-- A value laid out in a field; `index` is the place of the code. -/
def valueInField (self : Interp) (f : Field) (index : Nat) (v : Value) : Action (List Char) := do
  Display.ofFormatted (Formatted.checkWidth f.width)
  if f.code == 's' then return inField f (← Display.plain self v).toList
  else if f.code == 'r' then return inField f (← Display.whole self v).toList
  else if f.code == 'a' then return inField f (← Display.ascii self v).toList
  else if "diuxXo".toList.contains f.code then numberInField f v
  else if "eEfFgG".toList.contains f.code then
    match v.real? with
    | some n =>
      let spec := specOf f true
      return Formatted.number spec 3 (Formatted.floatParts spec (← Action.ofExcept n.toFloat))
    | none => Action.raise .type ("must be real number, not " ++ (← Object.typeName v))
  else if f.code == 'c' then
    match v with
    | .str s =>
      match s.toList with
      | [c] => return inField { f with precision := none } [c]
      | _ => Action.raise .type "%c requires int or char"
    | _ =>
      match v.int? with
      | some n =>
        if 0 ≤ n ∧ n < 0x110000 then
          return inField { f with precision := none } [Char.ofNat n.toNat]
        else Action.fail FormatFault.charRange.toFailure
      | none => Action.raise .type "%c requires int or char"
  else
    Action.raise .value ("unsupported format character '"
      ++ (if 31 ≤ f.code.toNat ∧ f.code.toNat < 127 then f.code.toString else "?")
      ++ "' (0x" ++ String.ofList (Nat.toDigits 16 f.code.toNat) ++ ") at index " ++ toString index)

/-! ## Reading fields -/

/-- What is left of a text and of the values that fill its fields. -/
structure Remainder where
  text : List Char
  values : List Value

/-- The next value. -/
def takeValue : List Value → Action (Value × List Value)
  | v :: rest => pure (v, rest)
  | [] => Action.raise .type "not enough arguments for format string"

/-- The number of characters before the parenthesis that closes as many as are open. -/
def keyLength? (depth : Nat) : List Char → Option Nat
  | [] => none
  | c :: rest =>
    if c = ')' then
      match depth with
      | 0 => some 0
      | d + 1 => (keyLength? d rest).map (· + 1)
    else (keyLength? (if c = '(' then depth + 1 else depth) rest).map (· + 1)

/-- Reads the key of a field, if it has one; its item then fills the field. -/
def readKey (self : Interp) (mapping : Option Value) (r : Remainder) : Action Remainder :=
  match r.text, mapping with
  | '(' :: _, none => Action.raise .type "format requires a mapping"
  | '(' :: rest, some m =>
    match keyLength? 0 rest with
    | none => Action.raise .value "incomplete format key"
    | some n => do
      let v ← Item.get self m (.str (String.ofList (rest.take n)))
      return ⟨rest.drop (n + 1), [v]⟩
  | _, _ => pure r

/-- Reads a number of the given name, zero without digits; an asterisk stands for the next value.
The number has to fit into a word of some bits. -/
def readNumber (bits : Nat) (word name : String) (r : Remainder) : Action (Int × Remainder) :=
  match r.text with
  | '*' :: rest => do
    let (v, values) ← takeValue r.values
    match v.int? with
    | some n =>
      if Word.holds bits n then return (n, ⟨rest, values⟩)
      else Action.raise .overflow ("Python int too large to convert to C " ++ word)
    | none => Action.raise .type "* wants int"
  | text =>
    let digits := text.takeWhile Char.isDigit
    let n := Decimal.natOf digits
    if n < Word.bound bits then pure (n, { r with text := text.drop digits.length })
    else Action.raise .value (name ++ " too big")

/-- Reads a precision, if there is one; a negative one is none at all. -/
def readPrecision (r : Remainder) : Action (Option Nat × Remainder) :=
  match r.text with
  | '.' :: rest => do
    let (n, r) ← readNumber 32 "int" "precision" { r with text := rest }
    return (some n.toNat, r)
  | _ => pure (none, r)

/-- The text without a size mark, which says nothing. -/
def skipSizeMark : List Char → List Char
  | c :: rest => if c = 'h' ∨ c = 'l' ∨ c = 'L' then rest else c :: rest
  | [] => []

/-- Reads what follows a percent sign: a field, with what is left behind it. -/
def readField (self : Interp) (mapping : Option Value) (r : Remainder) :
    Action (Field × Remainder) := do
  let r ← readKey self mapping r
  let flags := r.text.takeWhile "-+ #0".toList.contains
  let (width, r) ← readNumber 64 "ssize_t" "width" { r with text := r.text.drop flags.length }
  let (precision, r) ← readPrecision r
  match skipSizeMark r.text with
  | code :: rest =>
    let flags := if width < 0 then '-' :: flags else flags
    return (⟨flags, width.natAbs, precision, code⟩, ⟨rest, r.values⟩)
  | [] => Action.raise .value "incomplete format"

/-- Fills the fields of a text of which `total` characters were given; `fuel` bounds its length. -/
def fillFrom (self : Interp) (mapping : Option Value) (total : Nat) :
    Nat → Remainder → Action (List Char × List Value)
  | 0, r => pure ([], r.values)
  | fuel + 1, r =>
    match r.text with
    | [] => pure ([], r.values)
    | '%' :: '%' :: rest => do
      let (text, left) ← fillFrom self mapping total fuel { r with text := rest }
      return ('%' :: text, left)
    | '%' :: rest => do
      let (f, r) ← readField self mapping { r with text := rest }
      let (v, values) ← takeValue r.values
      let shown ← valueInField self f (total - r.text.length - 1) v
      let (text, left) ← fillFrom self mapping total fuel { r with values }
      return (shown ++ text, left)
    | c :: rest => do
      let (text, left) ← fillFrom self mapping total fuel { r with text := rest }
      return (c :: text, left)

/-- True of the values whose items have keys. -/
def isMapping (v : Value) : Action Bool := do
  match v with
  | .range _ _ _ => return true
  | _ => return (← Object.dict? v).isSome || (← Object.list? v).isSome

/-- A text with its fields filled in. Values left over are an error unless they come in a
mapping. -/
def fill (self : Interp) (text : String) (v : Value) : Action String := do
  let chars := text.toList
  let keyed ← isMapping v
  let (mapping, values) := match v with
    | .tuple items => (none, items)
    | _ => (if keyed then some v else none, [v])
  let (shown, left) ← fillFrom self mapping chars.length chars.length ⟨chars, values⟩
  if !left.isEmpty && !keyed then
    Action.raise .type "not all arguments converted during string formatting"
  else return String.ofList shown

end MarkupTemplate.Host.Percent
