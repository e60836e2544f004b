import MarkupTemplate.Atom
import MarkupTemplate.Text.Lines

/-!
# Places in a text

A place is a point in a text at which reading goes on: what lies before it, last character first,
and what follows. Moving forward keeps the text.

* `Place.text_advance`: moving forward keeps the text.
* `Place.length_advance_lt`: a move past a character leaves less to read.
-/

namespace MarkupTemplate

/-- A point in a text; `seen` holds what lies before it, last character first, and `pos` counts
those characters. -/
structure Place where
  seen : List Char
  rest : List Char
  pos : Nat
  pos_eq : pos = seen.length := by simp
deriving Repr, DecidableEq

namespace Place

/-- The point `offset` characters into a text, or its end when it is shorter. -/
def ofOffset (text : List Char) (offset : Nat) : Place where
  seen := (text.take offset).reverse
  rest := text.drop offset
  pos := (text.take offset).length

/-- The whole text. -/
def text (p : Place) : List Char := p.seen.reverse ++ p.rest

/-- The point `n` characters further on. -/
def advance (p : Place) (n : Nat) : Place where
  seen := (p.rest.take n).reverse ++ p.seen
  rest := p.rest.drop n
  pos := (p.rest.take n).length + p.pos
  pos_eq := by simp [p.pos_eq]

/-- The characters between a point and a later one. -/
def upTo (p q : Place) : List Char := p.rest.take (q.pos - p.pos)

/-- The first point from here on that is not before a blank. -/
def skipBlanks (p : Place) : Place := p.advance (p.rest.takeWhile Text.isBlank).length

theorem text_advance (p : Place) (n : Nat) : (p.advance n).text = p.text := by
  simp [advance, text, List.append_assoc]

theorem length_advance (p : Place) (n : Nat) :
    (p.advance n).rest.length = p.rest.length - n := by
  simp [advance]

theorem length_skipBlanks_le (p : Place) : p.skipBlanks.rest.length ≤ p.rest.length := by
  simp [skipBlanks, length_advance]

theorem length_advance_lt {p : Place} {n : Nat} (hn : 0 < n) (hp : p.rest ≠ []) :
    (p.advance n).rest.length < p.rest.length := by
  have := List.length_pos_iff.mpr hp
  rw [length_advance]; omega

end Place

end MarkupTemplate
