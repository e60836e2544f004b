import MarkupTemplate.Failure

/-!
# UTF-8

Reading a text from the bytes of a file. Bytes that spell no character end the reading; the fault
tells which bytes they are and why.

* `Utf8.decode`: the characters that bytes spell.
* `Utf8.continuation_length`: a character takes at least the byte that starts it.
* `Utf8Fault.message`: the wording of a fault.
-/

namespace MarkupTemplate

/-- Why bytes spell no character. -/
inductive Utf8Cause where
  | startByte
  | continuationByte
  | endOfData
deriving DecidableEq, Repr

/-- The wording of a cause. -/
def Utf8Cause.message : Utf8Cause → String
  | startByte => "invalid start byte"
  | continuationByte => "invalid continuation byte"
  | endOfData => "unexpected end of data"

/-- Bytes that spell no character: the first of them, its offset, and their number. -/
structure Utf8Fault where
  cause : Utf8Cause
  byte : UInt8
  start : Nat
  count : Nat
deriving DecidableEq, Repr

namespace Utf8Fault

/-- The wording of a fault. -/
def message (f : Utf8Fault) : String :=
  let which :=
    if f.count = 1 then
      "byte 0x" ++ String.ofList (Nat.toDigits 16 f.byte.toNat) ++ " in position "
        ++ toString f.start
    else "bytes in position " ++ toString f.start ++ "-" ++ toString (f.start + f.count - 1)
  "'utf-8' codec can't decode " ++ which ++ ": " ++ f.cause.message

/-- A fault as a failure. -/
def toFailure (f : Utf8Fault) : Failure := .raised .unicodeDecode f.message

end Utf8Fault

namespace Utf8

/-- The number of bytes that follow a start byte, and the bits of the character that it holds. -/
def startByte? (b : Nat) : Option (Nat × Nat) :=
  if b < 0x80 then some (0, b)
  else if 0xC2 ≤ b ∧ b < 0xE0 then some (1, b % 0x20)
  else if 0xE0 ≤ b ∧ b < 0xF0 then some (2, b % 0x10)
  else if 0xF0 ≤ b ∧ b < 0xF5 then some (3, b % 0x08)
  else none

/-- The least and the greatest byte that may come after a start byte: no character is spelled
longer than it need be, and none lies among the surrogates or past the last character. -/
def secondByteRange (b : Nat) : Nat × Nat :=
  if b = 0xE0 then (0xA0, 0xBF)
  else if b = 0xED then (0x80, 0x9F)
  else if b = 0xF0 then (0x90, 0xBF)
  else if b = 0xF4 then (0x80, 0x8F)
  else (0x80, 0xBF)

/-- Reads the `needed` bytes that are to come of a character, the next one in `range`; `taken` of
its bytes have been read and hold the bits `code`. A failure tells how many bytes were taken. -/
def continuation (needed taken code : Nat) (range : Nat × Nat) (bytes : List UInt8) :
    Except (Utf8Cause × Nat) (Char × List UInt8) :=
  match needed, bytes with
  | 0, rest => .ok (Char.ofNat code, rest)
  | _ + 1, [] => .error (.endOfData, taken)
  | n + 1, b :: rest =>
    if range.1 ≤ b.toNat ∧ b.toNat ≤ range.2 then
      continuation n (taken + 1) (code * 64 + b.toNat % 64) (0x80, 0xBF) rest
    else .error (.continuationByte, taken)

theorem continuation_length {needed taken code : Nat} {range : Nat × Nat} {bytes : List UInt8}
    {c : Char} {rest : List UInt8}
    (h : continuation needed taken code range bytes = .ok (c, rest)) :
    rest.length ≤ bytes.length := by
  fun_induction continuation needed taken code range bytes with
  | case1 => cases h; exact Nat.le_refl _
  | case2 => cases h
  | case3 taken code range n b r _ ih => exact Nat.le_succ_of_le (ih h)
  | case4 => cases h

/-- The characters that bytes spell, the first of the bytes being at `offset`. -/
def decodeFrom (offset : Nat) (bytes : List UInt8) : Except Utf8Fault (List Char) :=
  match bytes with
  | [] => .ok []
  | b :: rest =>
    match startByte? b.toNat with
    | none => .error ⟨.startByte, b, offset, 1⟩
    | some (needed, bits) =>
      match _h : continuation needed 1 bits (secondByteRange b.toNat) rest with
      | .error (cause, taken) => .error ⟨cause, b, offset, taken⟩
      | .ok (c, after) => do
        let text ← decodeFrom (offset + 1 + needed) after
        return c :: text
termination_by bytes.length
decreasing_by exact Nat.lt_succ_of_le (continuation_length _h)

/-- The characters that bytes spell. -/
def decode (bytes : List UInt8) : Except Utf8Fault (List Char) := decodeFrom 0 bytes

end Utf8

end MarkupTemplate
