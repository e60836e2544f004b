import MarkupTemplate.Text.Lines

/-!
# Layout of closures

A closure is lifted out of a template that has an indentation of its own. Code on the line of the
opening brace is trimmed; the other lines lose the margin they share, and are indented by one level
when the first line opens a block.

* `margin`: the longest run of spaces and tabs that opens every line of code.
* `dedent`: the lines without their margin.
* `normalize`: the statements of a closure, laid out to be read on their own.
-/

namespace MarkupTemplate.Host.Layout

/-- A space or a tab. -/
def isIndent (c : Char) : Bool := c == ' ' || c == '\t'

/-- The spaces and tabs that open a line. -/
def indentOf (line : List Char) : List Char := line.takeWhile isIndent

/-- The longest common prefix of two texts. -/
def commonPrefix : List Char → List Char → List Char
  | a :: as, b :: bs => if a = b then a :: commonPrefix as bs else []
  | _, _ => []

/-- The longest run of spaces and tabs that opens every line but those without anything else. -/
def margin (lines : List (List Char)) : List Char :=
  match (lines.filter fun l => !l.all isIndent).map indentOf with
  | [] => []
  | first :: rest => rest.foldl commonPrefix first

/-- The lines without their margin; lines of spaces and tabs become empty. -/
def dedent (lines : List (List Char)) : List (List Char) :=
  let n := (margin lines).length
  lines.map fun l => if l.all isIndent then [] else l.drop n

/-- The lines, all but the blank ones four spaces further in. -/
def indentLines (lines : List (List Char)) : List (List Char) :=
  lines.map fun l => if Text.isAllBlank l then l else ' ' :: ' ' :: ' ' :: ' ' :: l

/-- The lines without the empty ones at both ends. -/
def trimEmpty (lines : List (List Char)) : List (List Char) :=
  ((lines.dropWhile List.isEmpty).reverse.dropWhile List.isEmpty).reverse

/-- The lines without the blank ones at the end. -/
def dropTrailing (lines : List (List Char)) : List (List Char) :=
  (lines.reverse.dropWhile Text.isAllBlank).reverse

/-- A text, or the empty statement when there is none. -/
def orPass (text : List Char) : List Char := if text.isEmpty then "pass".toList else text

/-- The statements of a closure, laid out to be read on their own. -/
def normalize (source : List Char) : List Char :=
  match dropTrailing (Text.splitLines source) with
  | [] => "pass".toList
  | first :: others =>
    let head := Text.trim first
    let rest := dedent others
    if head.isEmpty then orPass (Text.joinLines (trimEmpty rest))
    else if rest.all Text.isAllBlank then head
    else
      let rest := if head.getLast? = some ':' then indentLines rest else rest
      head ++ '\n' :: Text.joinLines (trimEmpty rest)

end MarkupTemplate.Host.Layout
