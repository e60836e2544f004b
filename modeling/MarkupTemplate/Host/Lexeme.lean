import MarkupTemplate.Atom.Literal
import MarkupTemplate.Decimal.FloatText
import MarkupTemplate.Host.Expr
import MarkupTemplate.Text.Compatible

/-!
# Lexemes of the host language

Host source is cut into names, numbers, string literals, operators and the marks of line structure.
Line ends and indentation count only outside brackets.

* `Lexeme.ofText?`: the lexemes of a source, if it has any.
* `keywords`: the names that the language keeps for itself.
* `isCapture`: the texts that are one free name.
-/

namespace MarkupTemplate.Host

/-- The names that the language keeps for itself. -/
def keywords : List String :=
  ["False", "None", "True", "and", "as", "assert", "async", "await", "break", "class", "continue",
   "def", "del", "elif", "else", "except", "finally", "for", "from", "global", "if", "import", "in",
   "is", "lambda", "nonlocal", "not", "or", "pass", "raise", "return", "try", "while", "with",
   "yield"]

/-- True of a text that is one identifier, no keyword and not the wildcard. -/
def isCapture (pattern : String) : Bool :=
  Text.isIdentifier pattern.toList && !keywords.contains pattern && pattern != "_"

/-- A lexeme. A word that the language keeps for itself is a keyword as it is written; other names
are in their normal form. The body of a string literal is still as written. -/
inductive Lexeme where
  | keyword (word : String)
  | name (id : String)
  | number (value : Literal)
  | string (formatted raw : Bool) (body : List Char)
  | op (sign : String)
  | lineEnd
  | indent
  | dedent
deriving Repr, Inhabited

/-- The operators and delimiters, longer before shorter. -/
def operators : List String :=
  ["**=", "//=", ">>=", "<<=", "...", "!=", "%=", "&=", "**", "*=", "+=", "-=", "->", "//", "/=",
   ":=", "<<", "<=", "==", ">=", ">>", "@=", "^=", "|=", "%", "&", "(", ")", "*", "+", ",", "-",
   ".", "/", ":", ";", "<", "=", ">", "@", "[", "]", "^", "\x7b", "|", "\x7d", "~"]

namespace Lexeme

/-- True of a character that goes on with a name. -/
def isNamePart (c : Char) : Bool := Text.isIdentContinue c

/-- The number of characters of a non-empty run of digits with single underscores between them. -/
def digitRun (isDigit : Char → Bool) : List Char → Nat
  | [] => 0
  | c :: '_' :: d :: rest =>
    if isDigit c then if isDigit d then digitRun isDigit (d :: rest) + 2 else 1 else 0
  | c :: rest => if isDigit c then digitRun isDigit rest + 1 else 0

/-- The value of digits in a base, underscores skipped. -/
def valueIn (base : Nat) (digits : List Char) : Nat :=
  digits.foldl (fun n c => match Text.hexValue? c with
    | some d => n * base + d
    | none => n) 0

/-- True when what follows a number may follow it: no name, or a keyword that may stand there. -/
def mayFollowNumber (rest : List Char) : Bool :=
  match rest with
  | [] => true
  | c :: _ =>
    !isNamePart c
      || ["and", "else", "for", "if", "in", "is", "not", "or"].any fun w => w.toList.isPrefixOf rest

/-- A text without an underscore at its front. -/
def skipUnderscore (s : List Char) : List Char :=
  match s with
  | '_' :: rest => rest
  | _ => s

/-- A number in another base, after its mark. -/
def radixNumber? (base : Nat) (isDigit : Char → Bool) (rest : List Char) :
    Option (Literal × List Char) :=
  let digits := skipUnderscore rest
  let n := digitRun isDigit digits
  let after := digits.drop n
  if n = 0 || (after.head?.any Char.isDigit) || !mayFollowNumber after then none
  else some (.int (valueIn base (digits.take n)), after)

/-- The number of characters of an exponent. -/
def exponentLength (s : List Char) : Nat :=
  match s with
  | e :: rest =>
    if e == 'e' || e == 'E' then
      match rest with
      | sign :: more =>
        if sign == '+' || sign == '-' then
          let n := digitRun Char.isDigit more
          if n = 0 then 0 else n + 2
        else
          let n := digitRun Char.isDigit rest
          if n = 0 then 0 else n + 1
      | [] => 0
    else 0
  | [] => 0

/-- An imaginary number, when its mark follows the number that a text spells. -/
def imaginary? (number after : List Char) : Option (Option (Literal × List Char)) :=
  match after with
  | mark :: rest =>
    if mark == 'j' || mark == 'J' then
      some <| if mayFollowNumber rest then
        (Decimal.unsignedFloat? number).map fun x => (.imaginary x, rest)
      else none
    else none
  | [] => none

/-- The number of characters of a point and the digits behind it. -/
def fractionLength (s : List Char) : Nat :=
  match s with
  | '.' :: rest => digitRun Char.isDigit rest + 1
  | _ => 0

/-- A number in base ten. -/
def decimalNumber? (s : List Char) : Option (Literal × List Char) :=
  let whole := digitRun Char.isDigit s
  let fraction := fractionLength (s.drop whole)
  let afterFraction := s.drop (whole + fraction)
  let exponent := exponentLength afterFraction
  let after := s.drop (whole + fraction + exponent)
  let digits := s.take whole
  let signedExponent := exponent > 0 ||
    ((afterFraction.head? == some 'e' || afterFraction.head? == some 'E')
      && ((afterFraction.drop 1).head? == some '+' || (afterFraction.drop 1).head? == some '-'))
  if let some imaginary := imaginary? (s.take (whole + fraction + exponent)) after then imaginary
  else if (signedExponent && exponent = 0) || !mayFollowNumber after then none
  else if fraction = 0 && exponent = 0 then
    let leadingZero := digits.head? == some '0' && digits.any fun c => c != '0' && c != '_'
    let tooLong := Decimal.maxDigits < digits.countP (· != '_')
    if leadingZero || tooLong then none else some (.int (valueIn 10 digits), after)
  else
    (Decimal.unsignedFloat? (s.take (whole + fraction + exponent))).map fun x => (.float x, after)

/-- The number at the front of a text. -/
def number? (s : List Char) : Option (Literal × List Char) :=
  match s with
  | '0' :: mark :: rest =>
    if mark == 'x' || mark == 'X' then radixNumber? 16 (fun c => (Text.hexValue? c).isSome) rest
    else if mark == 'o' || mark == 'O' then radixNumber? 8 MarkupTemplate.Literal.isOctal rest
    else if mark == 'b' || mark == 'B' then radixNumber? 2 (fun c => c == '0' || c == '1') rest
    else decimalNumber? s
  | _ => decimalNumber? s

/-- The length of the body of a string literal up to its closing quotes. -/
def bodyLength? (quotes : List Char) (s : List Char) : Option Nat :=
  match s with
  | [] => none
  | '\\' :: _ :: rest => (bodyLength? quotes rest).map (· + 2)
  | c :: rest =>
    if quotes.isPrefixOf (c :: rest) then some 0
    else if c == '\n' && quotes.length = 1 then none
    else (bodyLength? quotes rest).map (· + 1)

/-- The string literal at the front of a text that starts with the quote `q`. -/
def string? (formatted raw : Bool) (q : Char) (s : List Char) : Option (Lexeme × List Char) :=
  let quotes := if [q, q, q].isPrefixOf s then [q, q, q] else [q]
  let inside := s.drop quotes.length
  (bodyLength? quotes inside).map fun n =>
    (.string formatted raw (inside.take n), inside.drop (n + quotes.length))

/-- The marks that may stand before a string literal: whether it is formatted and whether raw. -/
def stringMark? (mark : List Char) : Option (Bool × Bool) :=
  match mark.map Char.toLower with
  | [] => some (false, false)
  | ['r'] => some (false, true)
  | ['u'] => some (false, false)
  | ['f'] => some (true, false)
  | ['f', 'r'] => some (true, true)
  | ['r', 'f'] => some (true, true)
  | _ => none

/-- The operator at the front of a text. -/
def operator? (s : List Char) : Option String := operators.find? fun o => o.toList.isPrefixOf s

/-- How far the code of a line is indented: with tabs that reach to multiples of eight, and with
tabs that count as one blank. Lines of one block agree in both. -/
structure Indent where
  wide : Nat
  narrow : Nat
deriving DecidableEq, Repr, Inhabited

/-- Where the lexer stands: the closing brackets still awaited, the indentations of the open blocks
and whether a line starts here. -/
structure State where
  closers : List Char
  indents : List Indent
  lineStart : Bool
deriving Repr

/-- The indentation of a line that goes on from `start`, and the rest of it. Blanks before the end
of a line that is continued count alone, unless there are none; `held` is their number. -/
def indentation (held : Nat) (start : Indent) : List Char → Indent × List Char
  | ' ' :: rest => indentation held ⟨start.wide + 1, start.narrow + 1⟩ rest
  | '\t' :: rest => indentation held ⟨(start.wide / 8 + 1) * 8, start.narrow + 1⟩ rest
  | '\x0c' :: rest => indentation held ⟨0, 0⟩ rest
  | '\\' :: '\n' :: c :: rest =>
    indentation (if held = 0 then start.wide else held) start (c :: rest)
  | rest => (if held = 0 then start else ⟨held, held⟩, rest)

/-- Closes blocks down to an indentation; fails if no open block has it. -/
def closeTo? (start : Indent) : List Indent → Option (List Lexeme × List Indent)
  | [] => none
  | top :: below =>
    if top = start then some ([], top :: below)
    else if start.wide < top.wide then
      (closeTo? start below).map fun (lexemes, indents) => (.dedent :: lexemes, indents)
    else none

/-- The marks at the start of a line that holds code. -/
def lineMarks? (start : Indent) (indents : List Indent) : Option (List Lexeme × List Indent) :=
  match indents with
  | [] => none
  | top :: _ =>
    if top.wide < start.wide then
      if top.narrow < start.narrow then some ([.indent], start :: indents) else none
    else closeTo? start indents

/-- The state after an operator; a closing bracket has to be the awaited one. -/
def afterOperator? (st : State) (sign : String) : Option State :=
  match sign with
  | "(" => some { st with closers := ')' :: st.closers }
  | "[" => some { st with closers := ']' :: st.closers }
  | "\x7b" => some { st with closers := '\x7d' :: st.closers }
  | ")" | "]" | "\x7d" =>
    match st.closers with
    | c :: closers => if sign = c.toString then some { st with closers := closers } else none
    | [] => none
  | _ => some st

/-- The lexeme of a word. -/
def ofWord (word : List Char) : Lexeme :=
  let written := String.ofList word
  if keywords.contains written then .keyword written
  else .name (String.ofList (Text.compatible word))

/-- The lexeme of a word, or of the string literal that it marks. -/
def stepAtWord? (st : State) (word after : List Char) : Option (Lexeme × State × List Char) :=
  match after.head?, stringMark? word with
  | some q, some (formatted, raw) =>
    if q == '"' || q == '\x27' then (string? formatted raw q after).map fun (x, r) => (x, st, r)
    else some (ofWord word, st, after)
  | _, _ => some (ofWord word, st, after)

/-- The operator at the front of a text and the text after it. -/
def stepAtSign? (st : State) (s : List Char) : Option (Lexeme × State × List Char) := do
  let sign ← operator? s
  let st ← afterOperator? st sign
  return (.op sign, st, s.drop sign.length)

/-- One step inside a line, at a character that is no blank: a lexeme and the text after it. -/
def step? (st : State) (s : List Char) : Option (Lexeme × State × List Char) :=
  match s with
  | [] => none
  | c :: rest =>
    if c == '"' || c == '\x27' then
      (string? false false c s).map fun (x, r) => (x, st, r)
    else if Text.isIdentStart c then
      stepAtWord? st (c :: rest.takeWhile isNamePart) (rest.dropWhile isNamePart)
    else if c.isDigit || (c == '.' && rest.head?.any Char.isDigit) then
      (number? s).map fun (v, r) => (.number v, st, r)
    else stepAtSign? st s

/-- A step of the lexer: the last lexemes, or some lexemes and where it goes on. -/
inductive Next where
  | done (lexemes : List Lexeme)
  | go (lexemes : List Lexeme) (state : State) (rest : List Char)

/-- The marks that close the blocks that are still open at the end. -/
def closing (st : State) : List Lexeme := st.indents.dropLast.map fun _ => .dedent

/-- The step at the start of a line. -/
def nextAtLine? (st : State) (s : List Char) : Option Next :=
  let (start, rest) := indentation 0 ⟨0, 0⟩ s
  match rest with
  | [] => if st.closers.isEmpty then some (.done (closing st)) else none
  | '\n' :: more => some (.go [] st more)
  | '#' :: more => some (.go [] st (more.dropWhile (· != '\n')))
  | _ => (lineMarks? start st.indents).map fun (marks, indents) =>
    .go marks { st with indents := indents, lineStart := false } rest

/-- The step inside a line. -/
def nextInLine? (st : State) (s : List Char) : Option Next :=
  match s with
  | [] => if st.closers.isEmpty then some (.done (.lineEnd :: closing st)) else none
  | '\n' :: rest =>
    some (if st.closers.isEmpty then .go [.lineEnd] { st with lineStart := true } rest
      else .go [] st rest)
  | '#' :: rest => some (.go [] st (rest.dropWhile (· != '\n')))
  | '\\' :: '\n' :: rest => if rest.isEmpty then none else some (.go [] st rest)
  | c :: rest =>
    if c == ' ' || c == '\t' || c == '\x0c' then some (.go [] st rest)
    else (step? st s).map fun (lexeme, st, after) => .go [lexeme] st after

/-- The next step. -/
def next? (st : State) (s : List Char) : Option Next :=
  if st.lineStart then nextAtLine? st s else nextInLine? st s

/-- The lexemes of a source whose line ends are line feeds; `fuel` bounds the number of steps. -/
def run : Nat → State → List Char → Option (List Lexeme)
  | 0, _, _ => none
  | fuel + 1, st, s =>
    match next? st s with
    | some (.done lexemes) => some lexemes
    | some (.go lexemes st rest) => (run fuel st rest).map (lexemes ++ ·)
    | none => none

/-- The lexemes of a source, or `none` when it cannot be cut into lexemes. -/
def ofText? (source : List Char) : Option (List Lexeme) :=
  run (2 * source.length + 2) ⟨[], [⟨0, 0⟩], true⟩ (Text.unifyNewlines source)

end Lexeme

end MarkupTemplate.Host
