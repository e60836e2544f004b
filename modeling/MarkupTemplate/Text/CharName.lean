/-!
# Names of characters

Characters that a literal may write by their name, in any letter case.

* `named?`: the character of a name.
-/

namespace MarkupTemplate.Text

/-- The names and the characters they stand for. -/
def charNames : List (String × Char) :=
  [("BULLET", '\u2022'), ("EM DASH", '\u2014'),
   ("LATIN SMALL LETTER E WITH ACUTE", '\u00e9'), ("GRINNING FACE", Char.ofNat 0x1F600)]

/-- The character that a name stands for. -/
def named? (name : List Char) : Option Char :=
  (charNames.find? fun entry => entry.1.toList == name.map Char.toUpper).map (·.2)

end MarkupTemplate.Text
