import MarkupTemplate.Text.Lines

/-!
# Lines and columns

A position in a source is an offset in characters; people read lines and columns.

* `locate`: the line and column of an offset, both counted from one. Offsets past the end belong to
  the last line, and a negative offset counts back from the end when lines are counted.
* `lineStart`: the offset of the first character of the line that a text ends in.
-/

namespace MarkupTemplate

/-- A place in a source as people read it. -/
structure Location where
  line : Nat
  column : Int
deriving DecidableEq, Repr

namespace Location

/-- The length of the part of a text of length `len` that lies before the offset `pos`. -/
def reach (len : Nat) (pos : Int) : Nat :=
  if pos < 0 then (pos + len).toNat else min pos.toNat len

/-- The offset of the last line of a text. -/
def lineStart (before : List Char) : Nat :=
  before.length - (before.reverse.takeWhile (· != '\n')).length

/-- The line and column of an offset. -/
def locate (source : List Char) (pos : Int) : Location :=
  let before := source.take (reach source.length pos)
  ⟨before.count '\n' + 1, pos - lineStart before + 1⟩

/-- The words that end a message about a place in a known source. -/
def describe (source : List Char) (pos : Int) : String :=
  let l := locate source pos
  " at " ++ toString pos ++ " (line " ++ toString l.line ++ ", column " ++ toString l.column ++ ")"

end Location

end MarkupTemplate
