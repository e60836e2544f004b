import MarkupTemplate.Text.Lines

/-!
# Quoted text

The quoted form in which messages and displayed values show a text: in single quotes, or in
double quotes when that saves an escape, with every unprintable character written as an escape.

* `quote`: the quoted form.
-/

namespace MarkupTemplate.Text

/-- A hexadecimal escape with its mark and a fixed number of digits. -/
def hexEscape (mark : Char) (width n : Nat) : List Char :=
  '\\' :: mark :: padLeft width '0' (digitsOf 16 n)

/-- The shortest escape of a character by its code. -/
def codeEscape (c : Char) : List Char :=
  if c.toNat < 0x100 then hexEscape 'x' 2 c.toNat
  else if c.toNat < 0x10000 then hexEscape 'u' 4 c.toNat
  else hexEscape 'U' 8 c.toNat

/-- How one character is written between the quotes `q`. -/
def quoteChar (q c : Char) : List Char :=
  if c == q || c == '\\' then ['\\', c]
  else if c == '\n' then ['\\', 'n']
  else if c == '\r' then ['\\', 'r']
  else if c == '\t' then ['\\', 't']
  else if isPrintable c then [c]
  else codeEscape c

/-- The quote that surrounds a text: double only when that avoids escaping a single quote. -/
def quoteFor (s : List Char) : Char :=
  if s.contains '\x27' && !s.contains '"' then '"' else '\x27'

/-- The quoted form of a list of characters. -/
def quoteChars (s : List Char) : List Char :=
  let q := quoteFor s
  q :: (s.flatMap (quoteChar q) ++ [q])

/-- A text with every character beyond ASCII written as an escape. -/
def escapeBeyondAscii (s : List Char) : List Char :=
  s.flatMap fun c => if c.toNat < 128 then [c] else codeEscape c

/-- The quoted form of a text. -/
def quote (s : String) : String := String.ofList (quoteChars s.toList)

end MarkupTemplate.Text
