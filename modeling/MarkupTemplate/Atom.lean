/-!
# Atoms

The primitive pieces of a template: words, numbers, string literals, single punctuation characters
and balanced bracket groups. A group keeps the text between its brackets, so that host code can be
handed on untouched.

* `Bracket.openedBy?`, `Bracket.closedBy?`: the bracket a character opens or closes.
* `Atom.pos`, `Atom.stop`: the span of an atom in the source.
-/

namespace MarkupTemplate

/-- The three pairs of brackets. -/
inductive Bracket where
  | round
  | square
  | curly
deriving DecidableEq, Repr, Inhabited

namespace Bracket

/-- The character that opens the bracket. -/
def opener : Bracket → Char
  | round => '('
  | square => '['
  | curly => '\x7b'

/-- The character that closes the bracket. -/
def closer : Bracket → Char
  | round => ')'
  | square => ']'
  | curly => '\x7d'

/-- The bracket that a character opens. -/
def openedBy? (c : Char) : Option Bracket :=
  if c = round.opener then some round
  else if c = square.opener then some square
  else if c = curly.opener then some curly
  else none

/-- The bracket that a character closes. -/
def closedBy? (c : Char) : Option Bracket :=
  if c = round.closer then some round
  else if c = square.closer then some square
  else if c = curly.closer then some curly
  else none

theorem openedBy?_opener (b : Bracket) : openedBy? b.opener = some b := by cases b <;> decide

theorem closedBy?_closer (b : Bracket) : closedBy? b.closer = some b := by cases b <;> decide

end Bracket

/-- The kinds of atoms without inner structure. -/
inductive LeafKind where
  | ident
  | string
  | number
  | punct
deriving DecidableEq, Repr, Inhabited

/-- An atom with its span; the value of a string literal is its decoded text, that of any other
leaf its own text. -/
inductive Atom where
  | leaf (kind : LeafKind) (value : String) (pos stop : Nat)
  | group (bracket : Bracket) (pos stop : Nat) (inner : String) (children : List Atom)
deriving Repr, Inhabited

namespace Atom

/-- Where the atom starts. -/
def pos : Atom → Nat
  | leaf _ _ pos _ => pos
  | group _ pos _ _ _ => pos

/-- Where the atom ends: the offset just past it. -/
def stop : Atom → Nat
  | leaf _ _ _ stop => stop
  | group _ _ stop _ _ => stop

/-- The decoded text of a literal, the opening bracket of a group, else the atom's own text. -/
def value : Atom → String
  | leaf _ value _ _ => value
  | group bracket _ _ _ _ => bracket.opener.toString

end Atom

end MarkupTemplate
