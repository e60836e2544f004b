import MarkupTemplate.Text.CharClass

/-!
# Letter case

The capital and the small form of texts, for Latin, Greek and Cyrillic letters and the numerals that
have both. The form of one letter may be more than one character.

* `upper`: the capital form of a text.
* `lower`: the small form of a text.
-/

namespace MarkupTemplate.Text

/-- Ranges of capital letters with the distance to their small forms. -/
def shiftedCase : List (Nat × Nat × Nat) :=
  [(0x41, 0x5A, 32), (0xC0, 0xD6, 32), (0xD8, 0xDE, 32), (0x391, 0x3A1, 32), (0x3A3, 0x3AB, 32),
   (0x400, 0x40F, 80), (0x410, 0x42F, 32), (0x531, 0x556, 48), (0x2160, 0x216F, 16),
   (0x24B6, 0x24CF, 26), (0xFF21, 0xFF3A, 32)]

/-- Ranges in which a capital letter at an even distance is followed by its small form. -/
def pairedCase : List (Nat × Nat) :=
  [(0x100, 0x12F), (0x132, 0x137), (0x139, 0x148), (0x14A, 0x177), (0x179, 0x17E), (0x1CD, 0x1DC),
   (0x1DE, 0x1EF), (0x1F8, 0x21F), (0x222, 0x233), (0x370, 0x373), (0x3D8, 0x3EF), (0x460, 0x481),
   (0x48A, 0x4BF), (0x4C1, 0x4CE), (0x4D0, 0x52F), (0x1E00, 0x1E95), (0x1EA0, 0x1EFF)]

/-- The small form of a character. -/
def lowerChar (c : Char) : List Char :=
  let n := c.toNat
  if n = 0x130 then ['i', '\u0307']
  else if n = 0x178 then ['\u00FF']
  else if n = 0x1E9E then ['\u00DF']
  else if n = 0x2126 then ['\u03C9']
  else if n = 0x212A then ['k']
  else if n = 0x212B then ['\u00E5']
  else match shiftedCase.find? fun r => decide (r.1 ≤ n) && decide (n ≤ r.2.1) with
  | some (_, _, distance) => [Char.ofNat (n + distance)]
  | none =>
    match pairedCase.find? fun r => decide (r.1 ≤ n) && decide (n ≤ r.2) with
    | some (first, _) => if (n - first) % 2 = 0 then [Char.ofNat (n + 1)] else [c]
    | none => [c]

/-- The capital form of a character. -/
def upperChar (c : Char) : List Char :=
  let n := c.toNat
  if n = 0xB5 then ['\u039C']
  else if n = 0xDF then ['S', 'S']
  else if n = 0xFF then ['\u0178']
  else if n = 0x131 then ['I']
  else if n = 0x149 then ['\u02BC', 'N']
  else if n = 0x17F then ['S']
  else if n = 0x3C2 then ['\u03A3']
  else match shiftedCase.find? fun r => decide (r.1 + r.2.2 ≤ n) && decide (n ≤ r.2.1 + r.2.2) with
  | some (_, _, distance) => [Char.ofNat (n - distance)]
  | none =>
    match pairedCase.find? fun r => decide (r.1 ≤ n) && decide (n ≤ r.2) with
    | some (first, _) => if (n - first) % 2 = 1 then [Char.ofNat (n - 1)] else [c]
    | none => [c]

/-- The small form of a text. -/
def lower (s : List Char) : List Char := s.flatMap lowerChar

/-- The capital form of a text. -/
def upper (s : List Char) : List Char := s.flatMap upperChar

end MarkupTemplate.Text
