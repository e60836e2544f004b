import MarkupTemplate.Atom.Place
import MarkupTemplate.Text.CharName
import MarkupTemplate.Text.Quoted
import MarkupTemplate.Word

/-!
# String literals and numbers

How far a literal reaches, and what a string literal stands for. A string stands between single
quotes or double quotes, or between three of either; backslash escapes are decoded unless the
literal is marked raw.

* `readEscape`: the text that an escape stands for and how many characters it takes.
* `isRaw`: whether the literal that starts at a place carries the mark of a raw literal.
* `readBody`: the decoded body of a literal and the place after its closing quotes.
* `numberLength`: how far a number reaches.
-/

namespace MarkupTemplate

/-- What can be wrong with the pieces of a text. -/
inductive ScanCause where
  | unterminatedGroup (opener : Char)
  | unexpectedCloser (closer : Char)
  | unterminatedString
  | invalidEscape (mark : Char)
  | codeOverflow
  | unknownCharacter (name : String)
deriving DecidableEq, Repr

/-- A cause and the offset at which it is reported. -/
structure ScanFault where
  cause : ScanCause
  pos : Nat
deriving DecidableEq, Repr

/-- The message about a cause. -/
def ScanCause.message : ScanCause → String
  | unterminatedGroup c => "Unterminated group " ++ Text.quote c.toString
  | unexpectedCloser c => "Unexpected " ++ Text.quote c.toString
  | unterminatedString => "Unterminated string"
  | invalidEscape c => "Invalid \\" ++ c.toString ++ " escape"
  | codeOverflow => "Python int too large to convert to C int"
  | unknownCharacter name => "Unknown character name " ++ Text.quote name

namespace Literal

/-- The characters that stand for one other character after a backslash. -/
def simpleEscape? : Char → Option (List Char)
  | 'n' => some ['\n']
  | 't' => some ['\t']
  | 'r' => some ['\r']
  | 'a' => some ['\x07']
  | 'b' => some ['\x08']
  | 'f' => some ['\x0c']
  | 'v' => some ['\x0b']
  | '\\' => some ['\\']
  | '\x27' => some ['\x27']
  | '"' => some ['"']
  | '\n' => some []
  | _ => none

/-- The number of digits of a hexadecimal escape. -/
def hexWidth? : Char → Option Nat
  | 'x' => some 2
  | 'u' => some 4
  | 'U' => some 8
  | _ => none

/-- The number that hexadecimal digits spell. -/
def hexNumber? (digits : List Char) : Option Nat :=
  digits.foldl (fun acc c => do return (← acc) * 16 + (← Text.hexValue? c)) (some 0)

/-- True of an octal digit. -/
def isOctal (c : Char) : Bool := decide ('0' ≤ c) && decide (c ≤ '7')

/-- The character of a number, if it is a code point. -/
def charOf? (n : Nat) : Option Char := if h : n.isValidChar then some (Char.ofNatAux n h) else none

/-- Decodes the escape whose character after the backslash is `c`: the text it stands for and the
number of characters that it takes after `c`. An unknown escape keeps its backslash. -/
def readEscape (c : Char) (rest : List Char) : Except ScanCause (List Char × Nat) :=
  match simpleEscape? c with
  | some text => .ok (text, 0)
  | none =>
    if c = '\r' then .ok ([], if rest.head? = some '\n' then 1 else 0)
    else match hexWidth? c with
    | some width =>
      let digits := rest.take width
      if digits.length = width then
        match hexNumber? digits with
        | some n =>
          match charOf? n with
          | some d => .ok ([d], width)
          | none => .error (if n < Word.bound 32 then .invalidEscape c else .codeOverflow)
        | none => .error (.invalidEscape c)
      else .error (.invalidEscape c)
    | none =>
      if isOctal c then
        let more := (rest.take 2).takeWhile isOctal
        let value := (c :: more).foldl (fun acc d => acc * 8 + (d.toNat - 48)) 0
        .ok ([Char.ofNat value], more.length)
      else if c = 'N' ∧ rest.head? = some Bracket.curly.opener then
        let name := (rest.drop 1).takeWhile (· != Bracket.curly.closer)
        if name.length + 1 < rest.length then
          match Text.named? name with
          | some d => .ok ([d], name.length + 2)
          | none => .error (.unknownCharacter (String.ofList name))
        else .error (.invalidEscape 'N')
      else .ok (['\\', c], 0)

/-- The letters that may mark a literal. -/
def isMark (c : Char) : Bool := "rRbBfF".toList.contains c

/-- True when the literal after `seen` carries the mark of a raw literal: one or two marking
letters, one of them `r`, that belong to no longer word. -/
def isRaw (seen : List Char) : Bool :=
  let marks := (seen.take 2).takeWhile isMark
  match (seen.drop marks.length).head? with
  | some c => !(Text.isWord c || c == '_') && (marks.contains 'r' || marks.contains 'R')
  | none => marks.contains 'r' || marks.contains 'R'

/-- Reads the body of a literal that started at offset `opened`, up to its closing quotes. -/
def readBody (opened : Nat) (raw : Bool) (quotes : List Char) (p : Place) :
    Except ScanFault (List Char × Place) :=
  match _h : p.rest with
  | [] => .error ⟨.unterminatedString, opened⟩
  | c :: more =>
    if c = '\\' then
      match more with
      | [] => .error ⟨.unterminatedString, opened⟩
      | d :: rest =>
        if raw then do
          let (text, q) ← readBody opened raw quotes (p.advance 2)
          return ('\\' :: d :: text, q)
        else
          match readEscape d rest with
          | .error cause => .error ⟨cause, p.pos⟩
          | .ok (decoded, taken) => do
            let (text, q) ← readBody opened raw quotes (p.advance (taken + 2))
            return (decoded ++ text, q)
    else if quotes.isPrefixOf (c :: more) then .ok ([], p.advance quotes.length)
    else do
      let (text, q) ← readBody opened raw quotes (p.advance 1)
      return (c :: text, q)
termination_by p.rest.length
decreasing_by all_goals exact Place.length_advance_lt (by omega) (by simp [*])

/-- The quotes that open a literal at a place before the quote character `q`. -/
def openingQuotes (q : Char) (p : Place) : List Char :=
  if [q, q, q].isPrefixOf p.rest then [q, q, q] else [q]

/-- Reads the string literal at a place before the quote character `q`. -/
def readString (q : Char) (p : Place) : Except ScanFault (List Char × Place) :=
  let quotes := openingQuotes q p
  readBody p.pos (isRaw p.seen) quotes (p.advance quotes.length)

/-- How many characters of `rest` go on with a number whose last character is `last`: word
characters, points and, outside hexadecimal numbers, the sign of an exponent. -/
def numberLength (hex : Bool) (last : Char) : List Char → Nat
  | [] => 0
  | c :: rest =>
    if Text.isWord c || c == '.' || c == '_' then numberLength hex c rest + 1
    else if (c == '+' || c == '-') && (last == 'e' || last == 'E') && !hex then
      numberLength hex c rest + 1
    else 0

/-- True when a number starts with the mark of a hexadecimal number. -/
def isHex (text : List Char) : Bool :=
  text.head? == some '0' && ((text.drop 1).head? == some 'x' || (text.drop 1).head? == some 'X')

end Literal

end MarkupTemplate
