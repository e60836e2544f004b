import MarkupTemplate.Host.Lexeme

/-!
# Parsing steps

Parsers of the host language read a list of lexemes from the front and may fail; the rest of the
list is what they leave.

* `Parse.accept`, `Parse.expect`: an operator that may or has to come next.
* `Parse.acceptWord`: a keyword that may come next.
* `Parse.freeName`: a name that has to come next.
-/

namespace MarkupTemplate.Host

/-- A parser: reads lexemes from the front and may fail. -/
abbrev Parse (α : Type) := StateT (List Lexeme) Option α

namespace Parse

/-- The next lexeme. -/
def peek : Parse (Option Lexeme) := do return (← get).head?

/-- Drops the next lexeme. -/
def advance : Parse Unit := modify (·.drop 1)

/-- True when the operator comes next. -/
def seesOp (sign : String) : Parse Bool := do
  match (← get).head? with
  | some (.op s) => return s == sign
  | _ => return false

/-- True when the word comes next. -/
def seesWord (word : String) : Parse Bool := do
  match (← get).head? with
  | some (.keyword s) => return s == word
  | _ => return false

/-- Takes the operator if it comes next, and answers whether it did. -/
def accept (sign : String) : Parse Bool := do
  if ← seesOp sign then
    advance
    return true
  else return false

/-- Takes the word if it comes next, and answers whether it did. -/
def acceptWord (word : String) : Parse Bool := do
  if ← seesWord word then
    advance
    return true
  else return false

/-- Takes the operator, which has to come next. -/
def expect (sign : String) : Parse Unit := do
  if ← accept sign then return () else failure

/-- Takes the word, which has to come next. -/
def expectWord (word : String) : Parse Unit := do
  if ← acceptWord word then return () else failure

/-- Takes a name. -/
def freeName : Parse String := do
  match (← get).head? with
  | some (.name s) => advance; return s
  | _ => failure

/-- Succeeds only when nothing is left but line ends. -/
def finish : Parse Unit := do
  if (← get).all fun | .lineEnd => true | _ => false then return () else failure

/-- The result of a parser that reads everything. -/
def whole {α : Type} (p : Parse α) (lexemes : List Lexeme) : Option α :=
  (do
    let a ← p
    finish
    return a : Parse α).run lexemes |>.map (·.1)

end Parse

end MarkupTemplate.Host
