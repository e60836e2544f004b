import MarkupTemplate.Node.Read
import MarkupTemplate.Render

/-!
# Templates

A template is read once and rendered any number of times, each time with variables of its own.

* `Template.ofText?`: the template of a text.
* `Template.write`: writes a template to a sink; on failure what was written stays there.
* `Template.render`: a rendered template as a text.
* `Template.writeNamed`, `Template.renderNamed`: the same with variables given by name.
* `Template.writeOnce`, `Template.renderOnce`: the same for a text that is read for this once.
-/

namespace MarkupTemplate

/-- A template that is ready to be rendered. -/
structure Template where
  document : Document
  name : String
  evaluator : Evaluator

namespace Template

/-- The name of a template that was not given one. -/
def unnamed : String := "<template>"

/-- The template of a text. -/
def ofText? (evaluator : Evaluator) (name source : String) : Except Failure Template := do
  return ⟨← Document.ofText? source.toList, name, evaluator⟩

/-- A template as it is shown. -/
def describe (t : Template) : String := "<Template " ++ t.name ++ ">"

/-- Writes a template to a sink. -/
def write (t : Template) (sink : Nat) (scope : Bindings) : Action Unit :=
  Render.document t.evaluator sink t.document scope

/-- A rendered template. -/
def render (t : Template) (scope : Bindings) : Action String := do
  let sink ← Action.addSink
  t.write sink scope
  Action.output sink

/-- The template of a text without a name and without shared names. -/
def bare? (language : Language) (source : String) : Except Failure Template :=
  ofText? ⟨language, []⟩ unnamed source

/-! ## Variables given by name

A call takes the variables of a scope and, over them, variables given by name. None of the latter
can have the name of a parameter of a function that the call goes through. The scope is computed
last, so that its failure is reported only if there is no other. -/

/-- Fails if a variable given by name has the name of a parameter of a function. -/
def checkNames (function : String) (parameters : List String) (named : Bindings) : Action Unit :=
  match named.find? fun (name, _) => parameters.contains name with
  | some (name, _) =>
    Action.raise .type (function ++ "() got multiple values for argument '" ++ name ++ "'")
  | none => pure ()

/-- Writes a template to a sink, with variables given by name over those of a scope. -/
def writeNamed (t : Template) (sink : Nat) (scope : Action Bindings) (named : Bindings) :
    Action Unit := do
  checkNames "Template.write" ["self", "sink", "variables"] named
  t.write sink (named.shadow (← scope))

/-- A rendered template, with variables given by name over those of a scope. -/
def renderNamed (t : Template) (scope : Action Bindings) (named : Bindings) : Action String := do
  checkNames "Template.render" ["self", "variables"] named
  let sink ← Action.addSink
  t.writeNamed sink scope named
  Action.output sink

/-- Writes the template of a text to a sink. -/
def writeOnce (language : Language) (sink : Nat) (source : String) (scope : Action Bindings)
    (named : Bindings) : Action Unit := do
  checkNames "write" ["sink", "source", "variables"] named
  let t ← Action.ofExcept (bare? language source)
  t.writeNamed sink scope named

/-- The rendered template of a text. -/
def renderOnce (language : Language) (source : String) (scope : Action Bindings)
    (named : Bindings) : Action String := do
  checkNames "render" ["source", "variables"] named
  let t ← Action.ofExcept (bare? language source)
  t.renderNamed scope named

end Template

end MarkupTemplate
