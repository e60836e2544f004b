import MarkupTemplate.Host.Lexeme
import MarkupTemplate.Language

/-!
# Evaluators

An evaluator runs the fragments of a template in a host language, against names that all renderings
share and the variables of one rendering. It turns the failures of the host into template errors;
template errors that a fragment raises itself pass through as they are.

* `Evaluator.evaluate`, `Evaluator.test`, `Evaluator.iterate`, `Evaluator.next`, `Evaluator.match?`,
  `Evaluator.bind`, `Evaluator.execute`, `Evaluator.format`: the ways in which a fragment is used.
* `Failure.during`: the error about a failure during one of them.
-/

namespace MarkupTemplate

/-- What is being done with a fragment. -/
inductive Use where
  | evaluate
  | test
  | iterate
  | matching
  | execute
deriving DecidableEq, Repr

/-- What is being done, in words. -/
def Use.words : Use → String
  | evaluate => "evaluate expression"
  | test => "test condition"
  | iterate => "iterate over"
  | matching => "match pattern"
  | execute => "execute closure"

namespace Failure

/-- The error about a failure while a fragment is used; the fragment is quoted with its blanks
squeezed. -/
def during (use : Use) (source : String) (e : Failure) : Failure :=
  .template (.unlocated .evaluation ("Failed to " ++ use.words ++ " "
    ++ String.ofList (Text.quoteChars (Text.squeeze source.toList)) ++ ": " ++ e.summary))

/-- The error about a host failure while a fragment is used; template errors stay as they are. -/
def wrapped (use : Use) (source : String) : Failure → Failure
  | .template e => .template e
  | .host e => during use source (.host e)

/-- The error about a value that has no iterator; other failures stay as they are, except for the
mark of an exhausted iterator. -/
def notIterable (source : String) : Failure → Failure
  | .host ⟨.type, text⟩ => during .iterate source (.host ⟨.type, text⟩)
  | e => e.leavingGenerator

/-- The error about a value that does not take a format spec, given the type of the value. -/
def badSpec (type : String) (spec : Option String) (e : Failure) : Failure :=
  .template (.unlocated .formatSpec ("Cannot format " ++ type ++ " with spec "
    ++ (spec.map Text.quote).getD "None" ++ ": " ++ e.text))

end Failure

/-- A host language and the names that every fragment sees besides the variables. -/
structure Evaluator where
  language : Language
  globals : Bindings

namespace Evaluator

/-- The names that a fragment sees. -/
def names (ev : Evaluator) (scope : Bindings) : Bindings := scope.shadow ev.globals

/-- The value of an expression. -/
def evaluate (ev : Evaluator) (source : String) (scope : Bindings) : Action Value :=
  (ev.language.evaluate source (ev.names scope)).mapFailure (.wrapped .evaluate source)

/-- Whether the value of a condition counts as true. -/
def test (ev : Evaluator) (source : String) (scope : Bindings) : Action Bool := do
  let v ← ev.evaluate source scope
  (ev.language.truth v).mapFailure (.during .test source)

/-- An iterator over the value of an expression. -/
def iterate (ev : Evaluator) (source : String) (scope : Bindings) : Action Nat := do
  let v ← ev.evaluate source scope
  (ev.language.iter v).mapFailure (.notIterable source)

/-- The next item of an iterator over the value of an expression. -/
def next (ev : Evaluator) (source : String) (iterator : Nat) : Action (Option Value) :=
  (ev.language.next iterator).orElse fun
    | .host ⟨.stopIteration, _⟩ => pure none
    | e => Action.fail (e.wrapped .iterate source)

/-- The names that the general rules of patterns bind, when a value matches. -/
def matchInFull (ev : Evaluator) (pattern : String) (v : Value) (scope : Bindings) :
    Action (Option Bindings) :=
  (ev.language.matching pattern v (ev.names scope)).mapFailure (.wrapped .matching pattern)

/-- A text without the blanks at its ends. -/
def trimmed (s : String) : String := String.ofList (Text.trim s.toList)

/-- The names that a pattern binds, when a value matches. A name alone binds every value, and the
wildcard matches every value. -/
def match? (ev : Evaluator) (pattern : String) (v : Value) (scope : Bindings) :
    Action (Option Bindings) :=
  let p := trimmed pattern
  if p = "_" then pure (some [])
  else if Host.isCapture p then pure (some [(p, v)])
  else ev.matchInFull p v scope

/-- The names that a pattern binds, when the value has to match. -/
def bind (ev : Evaluator) (pattern : String) (v : Value) (scope : Bindings) :
    Action Bindings := do
  match ← ev.match? pattern v scope with
  | some b => return b
  | none =>
    let type ← ev.language.typeName v
    Action.fail (.template (.unlocated .evaluation ("Pattern " ++ Text.quote (trimmed pattern)
      ++ " does not match value of type " ++ type)))

/-- Runs statements. -/
def execute (ev : Evaluator) (source : String) (scope : Bindings) : Action Unit :=
  (ev.language.execute source (ev.names scope)).mapFailure (.wrapped .execute source)

/-- A value laid out by a format spec. -/
def format (ev : Evaluator) (v : Value) (spec : Option String) : Action String :=
  (ev.language.format (spec.getD "") v).orElse fun e =>
    if e.isValueOrType then do
      let type ← ev.language.typeName v
      Action.fail (e.badSpec type spec)
    else Action.fail e

end Evaluator

end MarkupTemplate
