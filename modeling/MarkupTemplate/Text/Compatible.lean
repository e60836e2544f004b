/-!
# Compatible spellings

Names are compared by a normal form in which characters that are mere variants of others are
replaced by what they vary, and a letter is joined with the accent behind it.

* `compatible`: the normal form of a name.
-/

namespace MarkupTemplate.Text

/-- What a variant character stands for. -/
def compatibleChar (c : Char) : List Char :=
  let n := c.toNat
  let shift (first base : Nat) : List Char := [Char.ofNat (base + (n - first))]
  if n = 0xAA then ['a']
  else if n = 0xBA then ['o']
  else if n = 0x2B0 then ['h']
  else if n = 0xB5 then ['\u03BC']
  else if n = 0xE33 then [Char.ofNat 0xE4D, Char.ofNat 0xE32]
  else if 0x2160 ≤ n ∧ n ≤ 0x216B then
    (["I", "II", "III", "IV", "V", "VI", "VII", "VIII", "IX", "X", "XI", "XII"].getD
      (n - 0x2160) "").toList
  else if 0xFF10 ≤ n ∧ n ≤ 0xFF19 then shift 0xFF10 0x30
  else if 0xFF21 ≤ n ∧ n ≤ 0xFF3A then shift 0xFF21 0x41
  else if 0xFF41 ≤ n ∧ n ≤ 0xFF5A then shift 0xFF41 0x61
  else if 0x1D400 ≤ n ∧ n ≤ 0x1D419 then shift 0x1D400 0x41
  else if 0x1D41A ≤ n ∧ n ≤ 0x1D433 then shift 0x1D41A 0x61
  else [c]

/-- Letters that an accent can stand on. -/
def plainLetters : List Char :=
  ("AEIOUYaeiouyCcLlNnRrSsZzÜüGgÅåÆæØøΑΕΗΙΟΥΩϊαεηιϋουωϒГКгкÇçĒēÏ"
    ++ "ïKkMmÕõŌōPpŨũWwÂâĂăÊêÔôƠơƯưἀἁἈἉἐἑἘἙἠἡἨἩἰἱἸἹὀὁὈὉὐὑὙὠὡὨὩ").toList

/-- The same letters under an acute accent. -/
def acuteLetters : List Char :=
  ("ÁÉÍÓÚÝáéíóúýĆćĹĺŃńŔŕŚśŹźǗǘǴǵǺǻǼǽǾǿΆΈΉΊΌΎΏΐάέήίΰόύώϓЃЌѓќḈḉḖḗḮ"
    ++ "ḯḰḱḾḿṌṍṒṓṔṕṸṹẂẃẤấẮắẾếỐốỚớỨứἄἅἌἍἔἕἜἝἤἥἬἭἴἵἼἽὄὅὌὍὔὕὝὤὥὬὭ").toList

/-- A letter under an acute accent. -/
def underAcute? (c : Char) : Option Char :=
  ((plainLetters.zip acuteLetters).find? (·.1 == c)).map (·.2)

/-- Letters and the acute accents that follow them joined into one character each. -/
def joinAccents : List Char → List Char
  | [] => []
  | [c] => [c]
  | c :: d :: rest =>
    match if d == '\u0301' then underAcute? c else none with
    | some e => e :: joinAccents rest
    | none => c :: joinAccents (d :: rest)

/-- The normal form of a name. -/
def compatible (name : List Char) : List Char := joinAccents (name.flatMap compatibleChar)

end MarkupTemplate.Text
