import MarkupTemplate.Decimal.FloatText
import MarkupTemplate.Failure

/-!
# JSON

Reading JSON texts. Objects keep the order of their members, integers have any size, and the words
for the numbers that JSON has no notation for are accepted.

* `Json.parse`: the value of a whole text.
* `JsonFault.message`: the wording of a fault, which ends with the place.
* `JsonFault.toFailure`: a fault as a failure.
-/

namespace MarkupTemplate

/-- A JSON value; the members of an object are in the order of their first occurrence. -/
inductive Json where
  | null
  | bool (b : Bool)
  | int (n : Int)
  | float (x : Float)
  | str (s : String)
  | arr (items : List Json)
  | obj (members : List (String × Json))
deriving Repr, Inhabited

/-- What can be wrong with a JSON text. -/
inductive JsonCause where
  | byteOrderMark
  | value
  | propertyName
  | colon
  | comma
  | extraData
  | unterminatedString
  | controlCharacter
  | escapeSequence
  | unicodeEscape
  | integerSize (digits : Nat)
deriving DecidableEq, Repr

/-- The wording of a cause. -/
def JsonCause.message : JsonCause → String
  | byteOrderMark => "Unexpected UTF-8 BOM (decode using utf-8-sig)"
  | value => "Expecting value"
  | propertyName => "Expecting property name enclosed in double quotes"
  | colon => "Expecting ':' delimiter"
  | comma => "Expecting ',' delimiter"
  | extraData => "Extra data"
  | unterminatedString => "Unterminated string starting at"
  | controlCharacter => "Invalid control character at"
  | escapeSequence => "Invalid \\escape"
  | unicodeEscape => "Invalid \\uXXXX escape"
  | integerSize n => Decimal.tooManyDigits (some n)

/-- A cause and the number of characters from the fault to the end of the text. -/
structure JsonFault where
  cause : JsonCause
  left : Nat
deriving DecidableEq, Repr

namespace JsonFault

/-- True when a text is no JSON; an integer that is too long is JSON all the same. -/
def isSyntactic (f : JsonFault) : Bool :=
  match f.cause with
  | .integerSize _ => false
  | _ => true

/-- The wording of a fault in a text. -/
def message (text : List Char) (f : JsonFault) : String :=
  let pos := text.length - f.left
  let place := Location.locate text pos
  if f.isSyntactic then
    f.cause.message ++ ": line " ++ toString place.line ++ " column " ++ toString place.column
      ++ " (char " ++ toString pos ++ ")"
  else f.cause.message

/-- The failure of reading a text. -/
def toFailure (text : List Char) (f : JsonFault) : Failure :=
  .raised (if f.isSyntactic then .jsonDecode else .value) (f.message text)

end JsonFault

namespace Json

/-- Blanks between the parts of a JSON text. -/
def isSpace (c : Char) : Bool := c == ' ' || c == '\t' || c == '\n' || c == '\r'

/-- Without the blanks at the front. -/
def skipSpace (s : List Char) : List Char := s.dropWhile isSpace

/-- The number of four hexadecimal digits. -/
def hex4? : List Char → Option Nat
  | [a, b, c, d] => do
    let a ← Text.hexValue? a
    let b ← Text.hexValue? b
    let c ← Text.hexValue? c
    let d ← Text.hexValue? d
    return ((a * 16 + b) * 16 + c) * 16 + d
  | _ => none

/-- The character of a backslash escape of two characters. -/
def simpleEscape? : Char → Option Char
  | '"' => some '"'
  | '\\' => some '\\'
  | '/' => some '/'
  | 'b' => some '\x08'
  | 'f' => some '\x0c'
  | 'n' => some '\n'
  | 'r' => some '\r'
  | 't' => some '\t'
  | _ => none

/-- The low half that a second escape gives after a high half. -/
def lowHalf? (s : List Char) : Option Nat :=
  match s with
  | '\\' :: 'u' :: rest =>
    if 4 < rest.length then
      (hex4? (rest.take 4)).filter fun n => decide (0xDC00 ≤ n) && decide (n < 0xE000)
    else none
  | _ => none

/-- Reads the body of a string that was opened `opened` characters before the end. -/
def readString (opened : Nat) (s : List Char) : Except JsonFault (List Char × List Char) :=
  match s with
  | [] => .error ⟨.unterminatedString, opened⟩
  | '"' :: rest => .ok ([], rest)
  | '\\' :: rest =>
    match rest with
    | [] => .error ⟨.unterminatedString, opened⟩
    | 'u' :: digits =>
      match hex4? (digits.take 4), decide (4 < digits.length) with
      | some n, true =>
        let after := digits.drop 4
        match decide (0xD800 ≤ n ∧ n < 0xDC00), lowHalf? after with
        | true, some low => do
          let (text, r) ← readString opened (after.drop 6)
          return (Char.ofNat (0x10000 + (n - 0xD800) * 1024 + (low - 0xDC00)) :: text, r)
        | _, _ => do
          let (text, r) ← readString opened after
          return ((if n.isValidChar then Char.ofNat n else '\uFFFD') :: text, r)
      | _, _ => .error ⟨.unicodeEscape, digits.length + 1⟩
    | c :: after =>
      match simpleEscape? c with
      | some d => do
        let (text, r) ← readString opened after
        return (d :: text, r)
      | none => .error ⟨.escapeSequence, rest.length + 1⟩
  | c :: rest =>
    if c.toNat < 0x20 then .error ⟨.controlCharacter, rest.length + 1⟩
    else do
      let (text, r) ← readString opened rest
      return (c :: text, r)
termination_by s.length
decreasing_by all_goals (simp only [List.length_cons, List.length_drop]; omega)

/-- Reads a number, which starts with a digit or a minus sign. -/
def readNumber? (s : List Char) : Option (Json × List Char) :=
  let (negative, rest) := match s with
    | '-' :: rest => (true, rest)
    | rest => (false, rest)
  let whole := match rest with
    | '0' :: _ => ['0']
    | rest => rest.takeWhile Char.isDigit
  if whole.isEmpty then none
  else
    let afterWhole := rest.drop whole.length
    let fraction := match afterWhole with
      | '.' :: r => r.takeWhile Char.isDigit
      | _ => []
    let afterFraction :=
      if fraction.isEmpty then afterWhole else afterWhole.drop (fraction.length + 1)
    let (expSign, afterSign) := match afterFraction with
      | e :: r => if e == 'e' || e == 'E' then
          match r with
          | '+' :: r' => (some false, r')
          | '-' :: r' => (some true, r')
          | r' => (some false, r')
        else (none, afterFraction)
      | [] => (none, afterFraction)
    let expDigits := if expSign.isSome then afterSign.takeWhile Char.isDigit else []
    let after := if expDigits.isEmpty then afterFraction else afterSign.drop expDigits.length
    if fraction.isEmpty && expDigits.isEmpty then
      let n : Int := Decimal.natOf whole
      some (.int (if negative then -n else n), after)
    else
      let e : Int := Decimal.natOf expDigits
      let x := Decimal.floatOfScientific (Decimal.natOf (whole ++ fraction))
        ((if expSign = some true then -e else e) - fraction.length)
      some (.float (if negative then -x else x), after)

/-- Reads a word or a number. -/
def readScalar (s : List Char) : Except JsonFault (Json × List Char) :=
  let word (w : String) (j : Json) : Option (Json × List Char) :=
    if w.toList.isPrefixOf s then some (j, s.drop w.length) else none
  let found := word "null" .null <|> word "true" (.bool true) <|> word "false" (.bool false)
    <|> word "NaN" (.float (0.0 / 0.0)) <|> word "Infinity" (.float (1.0 / 0.0))
    <|> word "-Infinity" (.float (-1.0 / 0.0)) <|> readNumber? s
  match found with
  | some (.int n, r) =>
    let digits := s.length - r.length - (if s.head? = some '-' then 1 else 0)
    if Decimal.maxDigits < digits then .error ⟨.integerSize digits, s.length⟩ else .ok (.int n, r)
  | some r => .ok r
  | none => .error ⟨.value, s.length⟩

/-- The members with one more; a later value replaces an earlier one of the same name. -/
def insertMember (members : List (String × Json)) (name : String) (value : Json) :
    List (String × Json) :=
  if members.any (·.1 == name) then
    members.map fun m => if m.1 == name then (name, value) else m
  else members ++ [(name, value)]

mutual

/-- Reads one value; `fuel` bounds the number of values and members still to come. -/
def readValue : Nat → List Char → Except JsonFault (Json × List Char)
  | 0, s => .error ⟨.value, s.length⟩
  | fuel + 1, s =>
    match s with
    | '"' :: rest => do
      let (text, r) ← readString s.length rest
      return (.str (String.ofList text), r)
    | '[' :: rest =>
      let inside := skipSpace rest
      if inside.head? = some ']' then .ok (.arr [], inside.drop 1)
      else do
        let (items, r) ← readItems fuel inside
        return (.arr items, r)
    | '\x7b' :: rest =>
      let inside := skipSpace rest
      if inside.head? = some '\x7d' then .ok (.obj [], inside.drop 1)
      else do
        let (members, r) ← readMembers fuel [] inside
        return (.obj members, r)
    | _ => readScalar s

/-- Reads the items of an array up to its closing bracket. -/
def readItems : Nat → List Char → Except JsonFault (List Json × List Char)
  | 0, s => .error ⟨.value, s.length⟩
  | fuel + 1, s => do
    let (item, r) ← readValue fuel s
    match skipSpace r with
    | ']' :: rest => return ([item], rest)
    | ',' :: rest =>
      let (items, r) ← readItems fuel (skipSpace rest)
      return (item :: items, r)
    | r => throw ⟨.comma, r.length⟩

/-- Reads the members of an object up to its closing brace. -/
def readMembers : Nat → List (String × Json) → List Char →
    Except JsonFault (List (String × Json) × List Char)
  | 0, _, s => .error ⟨.value, s.length⟩
  | fuel + 1, members, s => do
    match s with
    | '"' :: rest =>
      let (name, r) ← readString s.length rest
      match skipSpace r with
      | ':' :: rest =>
        let (value, r) ← readValue fuel (skipSpace rest)
        let members := insertMember members (String.ofList name) value
        match skipSpace r with
        | '\x7d' :: rest => return (members, rest)
        | ',' :: rest => readMembers fuel members (skipSpace rest)
        | r => throw ⟨.comma, r.length⟩
      | r => throw ⟨.colon, r.length⟩
    | _ => throw ⟨.propertyName, s.length⟩

end

/-- The value of a whole text. -/
def parse (text : List Char) : Except JsonFault Json :=
  if text.head? = some '\uFEFF' then .error ⟨.byteOrderMark, text.length⟩
  else do
    let (value, r) ← readValue (2 * text.length + 1) (skipSpace text)
    let rest := skipSpace r
    if rest.isEmpty then return value else throw ⟨.extraData, rest.length⟩

end Json

end MarkupTemplate
