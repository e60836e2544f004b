import MarkupTemplate.Atom.Literal
import MarkupTemplate.Failure

/-!
# Pieces of a pattern

To find the guard of a pattern, its text is cut into pieces without being understood: names, opening
and closing brackets, string literals, comments, and everything else. The pieces together are the
text.

* `Piece.stepInLine`, `Piece.stepAtLine`, `Piece.stepInString`: the next piece.
* `Piece.cut`: the pieces of a text, up to the point where it cannot be cut any further.
-/

namespace MarkupTemplate.Host

/-- The kinds of pieces. A string literal that goes on behind a joined line is several pieces. -/
inductive PieceKind where
  | name
  | opener
  | closer
  | literal
  | comment
  | other
deriving DecidableEq, Repr

/-- A piece of a text. -/
structure Piece where
  kind : PieceKind
  text : List Char
deriving DecidableEq, Repr

/-- How cutting a text ends: at its end, inside an open bracket or string, or at a line whose
indentation fits no open block. -/
inductive Ending where
  | complete
  | unbalanced
  | misindented
deriving DecidableEq, Repr

namespace Piece

/-- A blank inside a line. -/
def isGap (c : Char) : Bool := c == ' ' || c == '\t' || c == '\x0c'

/-- True of a character that goes on with a name. -/
def isNamePart (c : Char) : Bool := Text.isWord c || c == '_'

/-- The length of digits that may be grouped by single underscores. -/
def groupedDigits (isDigit : Char → Bool) : List Char → Nat
  | [] => 0
  | '_' :: d :: rest => if isDigit d then groupedDigits isDigit rest + 2 else 0
  | d :: rest => if isDigit d then groupedDigits isDigit rest + 1 else 0

/-- The length of digits grouped by single underscores, the first of them a digit. -/
def digits (s : List Char) : Nat :=
  match s with
  | d :: rest => if d.isDigit then groupedDigits Char.isDigit rest + 1 else 0
  | [] => 0

/-- The length of a sign, if there is one. -/
def signLength (s : List Char) : Nat :=
  if s.head? == some '+' || s.head? == some '-' then 1 else 0

/-- The length of an exponent. -/
def exponent (s : List Char) : Nat :=
  match s with
  | e :: rest =>
    if e == 'e' || e == 'E' then
      let n := digits (rest.drop (signLength rest))
      if n = 0 then 0 else n + signLength rest + 1
    else 0
  | [] => 0

/-- The length of a point and the digits behind it. -/
def fractionLength (s : List Char) : Nat :=
  match s with
  | '.' :: rest => digits rest + 1
  | _ => 0

/-- The length of a number with a point or an exponent. -/
def floatLength (s : List Char) : Nat :=
  let whole := digits s
  let fraction := fractionLength (s.drop whole)
  let e := exponent (s.drop (whole + fraction))
  if (whole = 0 && fraction ≤ 1) || (fraction = 0 && e = 0) then 0 else whole + fraction + e

/-- The digits of another base, by its mark. -/
def radixDigit? (mark : Char) : Option (Char → Bool) :=
  if mark == 'x' || mark == 'X' then some fun c => (Text.hexValue? c).isSome
  else if mark == 'b' || mark == 'B' then some fun c => c == '0' || c == '1'
  else if mark == 'o' || mark == 'O' then some Literal.isOctal
  else none

/-- The length of a number in another base, its mark included. -/
def radixLength (s : List Char) : Nat :=
  match s with
  | '0' :: mark :: rest =>
    match radixDigit? mark with
    | some isDigit =>
      let n := groupedDigits isDigit rest
      if n = 0 then 0 else n + 2
    | none => 0
  | _ => 0

/-- The length of a whole number in base ten. -/
def wholeLength (s : List Char) : Nat :=
  match s with
  | '0' :: rest => groupedDigits (· == '0') rest + 1
  | _ => digits s

/-- The length of the number at the front of a text. -/
def numberLength (s : List Char) : Nat :=
  let isImaginary (n : Nat) : Bool :=
    n > 0 && ((s.drop n).head? == some 'j' || (s.drop n).head? == some 'J')
  let whole := digits s
  let float := floatLength s
  if isImaginary whole then whole + 1
  else if isImaginary float then float + 1
  else if float > 0 then float
  else if radixLength s > 0 then radixLength s
  else wholeLength s

/-- True of a character that opens and closes string literals. -/
def isQuote (c : Char) : Bool := c == '"' || c == '\x27'

/-- True of a letter that may mark a string literal. -/
def isMarkLetter (c : Char) : Bool := "rRbBfFuU".toList.contains c

/-- The letters at the front of a text that may mark a string literal, at most two. -/
def markLetters (s : List Char) : List Char := (s.take 2).takeWhile isMarkLetter

/-- True of two letters that mark a string literal together. -/
def isDoubleMark (letters : List Char) : Bool :=
  [['b', 'r'], ['r', 'b'], ['f', 'r'], ['r', 'f']].contains (letters.map Char.toLower)

/-- The letters before the quotes of a string literal. -/
def markLength (s : List Char) : Nat :=
  let isQuoteAt (n : Nat) : Bool := (s.drop n).head?.any isQuote
  if isQuoteAt 0 then 0
  else if (markLetters s).length ≥ 1 && isQuoteAt 1 then 1
  else if isQuoteAt 2 && isDoubleMark (markLetters s) then 2
  else 0

/-- The length of the text up to and with the closing quotes; a backslash hides what follows it. -/
def closeLength? (quotes : List Char) (s : List Char) : Option Nat :=
  match s with
  | [] => none
  | '\\' :: _ :: rest => (closeLength? quotes rest).map (· + 2)
  | c :: rest =>
    if quotes.isPrefixOf (c :: rest) then some quotes.length
    else (closeLength? quotes rest).map (· + 1)

/-- How the rest of a line of a string literal goes on. -/
inductive LineEnd where
  | closed (length : Nat)
  | continued (length : Nat)
  | open (length : Nat)

/-- Reads a one-line string literal up to its quote or up to the end of the line. -/
def lineEnd (quote : Char) (taken : Nat) (s : List Char) : LineEnd :=
  match s with
  | [] => .open taken
  | '\\' :: '\n' :: _ => .continued (taken + 2)
  | '\\' :: '\r' :: '\n' :: _ => .continued (taken + 3)
  | '\\' :: _ :: rest => lineEnd quote (taken + 2) rest
  | c :: rest =>
    if c == quote then .closed (taken + 1)
    else if c == '\n' then .open (taken + 1)
    else lineEnd quote (taken + 1) rest

/-- The column after the blanks that open a line. -/
def column (gaps : List Char) : Nat :=
  gaps.foldl (fun n c => if c == '\t' then (n / 8 + 1) * 8 else if c == '\x0c' then 0 else n + 1) 0

/-- The indentations of the open blocks at a line of a given indentation. -/
def indentsAt? (width : Nat) (indents : List Nat) : Option (List Nat) :=
  match indents with
  | [] => some [width]
  | top :: below =>
    if top < width then some (width :: top :: below)
    else if width < top then
      if below.contains width then indentsAt? width below else none
    else some (top :: below)

/-- Where the cutting stands. -/
inductive Mode where
  | lineStart
  | inLine
  | inString (quote : Char)
deriving DecidableEq, Repr

/-- The brackets that are open, whether a backslash joins the next line, and the indentations of the
open blocks. -/
structure State where
  depth : Int
  joined : Bool
  indents : List Nat
deriving Repr

/-- A step of the cutting: a piece and where it leads, or the reason why there is none. -/
inductive Step where
  | piece (kind : PieceKind) (length : Nat) (mode : Mode) (state : State)
  | stop (ending : Ending)

/-- The step at a string literal with `mark` letters before its quote, `quoted` being the text from
the quote on. An open literal is no literal: its letters are a name, its quote stands by itself. -/
def stepAtLiteral (st : State) (mark : Nat) (quote : Char) (quoted : List Char) : Step :=
  if [quote, quote, quote].isPrefixOf quoted then
    match closeLength? [quote, quote, quote] (quoted.drop 3) with
    | some n => .piece .literal (mark + 3 + n) .inLine st
    | none => .stop .unbalanced
  else
    match lineEnd quote 0 (quoted.drop 1) with
    | .closed n => .piece .literal (mark + 1 + n) .inLine st
    | .continued n => .piece .literal (mark + 1 + n) (.inString quote) st
    | .open _ => if mark = 0 then .piece .other 1 .inLine st else .piece .name mark .inLine st

/-- The step at a character that opens no string literal and no number. -/
def stepAtSign (st : State) (c : Char) (rest : List Char) : Step :=
  if (Bracket.openedBy? c).isSome then
    .piece .opener 1 .inLine { st with depth := st.depth + 1 }
  else if (Bracket.closedBy? c).isSome then
    .piece .closer 1 .inLine { st with depth := st.depth - 1 }
  else if isNamePart c then
    .piece (if Text.isIdentStart c then .name else .other) (rest.takeWhile isNamePart).length.succ
      .inLine st
  else .piece .other 1 .inLine st

/-- The quote of the string literal at the front of a text. -/
def quoteAt? (s : List Char) : Option Char := (s.drop (markLength s)).head?.filter isQuote

/-- The step at a character that is no blank and opens no comment. -/
def stepAtToken (st : State) (c : Char) (rest : List Char) : Step :=
  let mark := markLength (c :: rest)
  let number := numberLength (c :: rest)
  match quoteAt? (c :: rest) with
  | some quote => stepAtLiteral st mark quote ((c :: rest).drop mark)
  | none => if 0 < number then .piece .other number .inLine st else stepAtSign st c rest

/-- The step inside a line. -/
def stepInLine (st : State) (s : List Char) : Step :=
  match s with
  | [] => .stop .complete
  | '\n' :: _ => .piece .other 1 .lineStart st
  | '\r' :: '\n' :: _ => .piece .other 2 .lineStart st
  | '\\' :: '\n' :: _ => .piece .other 2 .lineStart { st with joined := true }
  | '\\' :: '\r' :: '\n' :: _ => .piece .other 3 .lineStart { st with joined := true }
  | '.' :: '.' :: '.' :: _ => .piece .other 3 .inLine st
  | c :: rest =>
    if isGap c then .piece .other 1 .inLine st
    else if c == '#' then
      .piece .comment (rest.takeWhile fun d => d != '\r' && d != '\n').length.succ .inLine st
    else stepAtToken st c rest

/-- The length of a line with the line feed that ends it. -/
def rowLength : List Char → Nat
  | [] => 0
  | c :: rest => if c == '\n' then 1 else rowLength rest + 1

/-- The step at the start of a line. Outside brackets its indentation has to fit the open blocks,
unless nothing but a comment stands in it; a carriage return in front counts as nothing. -/
def stepAtLine (st : State) (s : List Char) : Step :=
  if st.depth = 0 && !st.joined then
    let gaps := s.takeWhile isGap
    match s.drop gaps.length with
    | [] => if gaps.isEmpty then .stop .complete else .piece .other gaps.length .inLine st
    | c :: rest =>
      if c == '#' || c == '\r' || c == '\n' then
        .piece (if c == '#' then .comment else .other) (gaps.length + rowLength (c :: rest))
          .lineStart st
      else match indentsAt? (column gaps) st.indents with
        | some indents => .piece .other gaps.length .inLine { st with indents := indents }
        | none => .stop .misindented
  else if s.isEmpty then .stop .unbalanced
  else .piece .other 0 .inLine { st with joined := false }

/-- The step inside a string literal that a backslash has carried over the end of a line. -/
def stepInString (quote : Char) (st : State) (s : List Char) : Step :=
  match lineEnd quote 0 s with
  | .closed n => .piece .literal n .inLine st
  | .continued n => .piece .literal n (.inString quote) st
  | .open n => if s.isEmpty then .stop .unbalanced else .piece .other n .lineStart st

/-- The next step. -/
def stepAt (mode : Mode) (st : State) (s : List Char) : Step :=
  match mode with
  | .lineStart => stepAtLine st s
  | .inLine => if s.isEmpty then stepAtLine st s else stepInLine st s
  | .inString quote => stepInString quote st s

/-- Cuts a text into pieces; `fuel` bounds the number of steps. -/
def cutFrom : Nat → Mode → State → List Char → List Piece × Ending
  | 0, _, _, _ => ([], .unbalanced)
  | fuel + 1, mode, st, s =>
    match stepAt mode st s with
    | .stop ending => ([], ending)
    | .piece kind n mode st =>
      let (pieces, ending) := cutFrom fuel mode st (s.drop n)
      (⟨kind, s.take n⟩ :: pieces, ending)

/-- Cuts a text into pieces. -/
def cut (text : List Char) : List Piece × Ending :=
  cutFrom (2 * text.length + 2) .lineStart ⟨0, false, [0]⟩ text

end Piece

end MarkupTemplate.Host
