import MarkupTemplate.Text.CharClass

/-!
# Trimming, words and lines

Texts as lists of characters: cutting blanks off the ends, cutting at blanks, and the two ways of
cutting a text into lines.

* `trim`: a text without the blanks at its ends.
* `words`: the maximal runs of characters that are not blank.
* `splitLines`: the lines of a text, each line boundary of the Unicode standard ending one.
* `unifyNewlines`: the three newline spellings read as one.
-/

namespace MarkupTemplate.Text

/-- Without the blanks at the front. -/
def trimLeft (s : List Char) : List Char := s.dropWhile isBlank

/-- Without the blanks at the end. -/
def trimRight (s : List Char) : List Char := (s.reverse.dropWhile isBlank).reverse

/-- Without the blanks at both ends. -/
def trim (s : List Char) : List Char := trimRight (trimLeft s)

/-- The characters of a slice: from position `start` up to, but not including, `stop`. -/
def slice (s : List Char) (start stop : Nat) : List Char := (s.drop start).take (stop - start)

/-- True when every character is blank. -/
def isAllBlank (s : List Char) : Bool := s.all isBlank

/-- Collects words, `word` being the one under way, last character first. -/
def wordsFrom (word : List Char) : List Char → List (List Char)
  | [] => if word.isEmpty then [] else [word.reverse]
  | c :: rest =>
    if isBlank c then
      if word.isEmpty then wordsFrom [] rest else word.reverse :: wordsFrom [] rest
    else wordsFrom (c :: word) rest

/-- The maximal runs of characters that are not blank. -/
def words (s : List Char) : List (List Char) := wordsFrom [] s

/-- A text with every run of blanks replaced by one space, and none at the ends. -/
def squeeze (s : List Char) : List Char := (words s).intersperse [' '] |>.flatten

/-- A character that ends a line by itself. -/
def isLineEnd (c : Char) : Bool :=
  c == '\n' || c == '\r' || c == '\x0b' || c == '\x0c' || c == '\x1c' || c == '\x1d' || c == '\x1e'
    || c == '\u0085' || c == '\u2028' || c == '\u2029'

/-- Collects lines, `line` being the one under way, last character first. -/
def splitLinesFrom (line : List Char) : List Char → List (List Char)
  | [] => if line.isEmpty then [] else [line.reverse]
  | '\r' :: '\n' :: rest => line.reverse :: splitLinesFrom [] rest
  | c :: rest =>
    if isLineEnd c then line.reverse :: splitLinesFrom [] rest else splitLinesFrom (c :: line) rest

/-- The lines of a text without their ends; a final line end opens no further line. -/
def splitLines (s : List Char) : List (List Char) := splitLinesFrom [] s

/-- Lines written one under the other. -/
def joinLines (lines : List (List Char)) : List Char := (lines.intersperse ['\n']).flatten

/-- A text whose carriage returns, alone or before a line feed, are read as line feeds. -/
def unifyNewlines : List Char → List Char
  | [] => []
  | '\r' :: '\n' :: rest => '\n' :: unifyNewlines rest
  | c :: rest => (if c == '\r' then '\n' else c) :: unifyNewlines rest

/-- Cuts a text at each occurrence of `sep`, `piece` being the part under way, reversed. -/
def splitOnFrom (sep piece : List Char) (s : List Char) : List (List Char) :=
  if _hp : sep = [] then [piece.reverse ++ s]
  else
    match s with
    | [] => [piece.reverse]
    | c :: rest =>
      if sep.isPrefixOf (c :: rest) then
        piece.reverse :: splitOnFrom sep [] ((c :: rest).drop sep.length)
      else splitOnFrom sep (c :: piece) rest
termination_by s.length
decreasing_by
  · have : 0 < sep.length := List.length_pos_iff.mpr ‹_›
    simp only [List.length_drop, List.length_cons]; omega
  · simp

/-- Cuts a text at each occurrence of `sep`, found from left to right without overlap. -/
def splitOn (sep s : List Char) : List (List Char) := splitOnFrom sep [] s

/-- The position of the first occurrence of `pat` at or after `start`. -/
def findFrom (pat : List Char) (start : Nat) : List Char → Option Nat
  | [] => if pat.isEmpty then some start else none
  | c :: rest =>
    if pat.isPrefixOf (c :: rest) then some start else findFrom pat (start + 1) rest

/-- Padding on the left up to a width. -/
def padLeft (width : Nat) (fill : Char) (s : List Char) : List Char :=
  List.replicate (width - s.length) fill ++ s

/-- A number written in base `base` with lower-case digits. -/
def digitsOf (base n : Nat) : List Char := (Nat.toDigits base n)

end MarkupTemplate.Text
