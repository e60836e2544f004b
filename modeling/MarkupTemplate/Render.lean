import MarkupTemplate.Escape
import MarkupTemplate.Evaluator

/-!
# Rendering

A document is written to a sink node by node. Variables are bound for the nodes that follow on the
same level and below; what a loop, a branch, an element or a closure binds ends with it.

* `Render.nodes`: writes nodes and answers the variables that are then bound.
* `Render.document`: writes a document.
* `Failure.locate`: an error without a place gets that of the node it comes from.
-/

namespace MarkupTemplate

namespace Failure

/-- An evaluation or format error without a place, put at the place of a node. Without a source
nothing is known about places. -/
def locate (source : List Char) (pos : Nat) : Failure → Failure
  | .template ⟨kind, message, none⟩ =>
    if (kind = .evaluation ∨ kind = .formatSpec) ∧ source ≠ [] then
      .template (.located kind message pos (some source))
    else .template ⟨kind, message, none⟩
  | e => e

end Failure

/-- What a rendering keeps: who runs the fragments, where the output goes, and the text of the
template. -/
structure Rendering where
  evaluator : Evaluator
  sink : Nat
  source : List Char

namespace Render

/-- Writes a text. -/
def write (r : Rendering) (text : String) : Action Unit := Action.write r.sink text

/-- A run whose errors belong to the node at an offset. -/
def located {α : Type} (r : Rendering) (pos : Nat) (x : Action α) : Action α :=
  x.mapFailure (.locate r.source pos)

/-- The text of an expression, not escaped. -/
def formatted (r : Rendering) (e : Expression) (scope : Bindings) : Action String :=
  located r e.pos do
    let v ← r.evaluator.evaluate e.source scope
    r.evaluator.format v e.spec

/-- Escapes a text for a context. -/
def escaped (context : EscapeContext) (text : String) : Action String :=
  match escape? context text with
  | some s => pure s
  | none =>
    Action.raise .value ("Unknown escaping context " ++ Text.quote context.name)

/-- Writes an expression. -/
def expression (r : Rendering) (e : Expression) (scope : Bindings) : Action Unit := do
  write r (← escaped e.context (← formatted r e scope))

/-- The text of parts one after another, not escaped. -/
def joinedParts (r : Rendering) (scope : Bindings) : List Part → Action String
  | [] => pure ""
  | .literal s :: rest => do return s ++ (← joinedParts r scope rest)
  | .expression e :: rest => do
    let s ← formatted r e scope
    return s ++ (← joinedParts r scope rest)
  | .unsupported kind lacking :: _ =>
    Action.raise .attr ("'" ++ kind ++ "' object has no attribute '" ++ lacking ++ "'")

/-- Runs a closure, which writes through its binding. -/
def closure (r : Rendering) (c : Closure) (scope : Bindings) : Action Unit :=
  located r c.pos
    (r.evaluator.execute c.body (Bindings.shadow [(c.binding, .writer r.sink)] scope))

/-! ## Attributes -/

/-- A text escaped as in an attribute. -/
def attributeText (text : String) : String :=
  String.ofList (Escape.escapeAttribute text.toList)

/-- Writes the texts whose conditions are true, a blank after each. -/
def conditional (r : Rendering) (pos : Nat) (scope : Bindings) :
    List (String × String) → Action Unit
  | [] => pure ()
  | (text, condition) :: rest => do
    if ← located r pos (r.evaluator.test condition scope) then
      write r (attributeText text ++ " ")
    conditional r pos scope rest

mutual

/-- Writes the value of an attribute. -/
def attributeValue (r : Rendering) (scope : Bindings) : AttributeValue → Action Unit
  | .literal s => write r (attributeText s)
  | .expression e => expression r e scope
  | .conditional items pos => conditional r pos scope items
  | .concat parts => concatenated r scope parts
  | .closure c => closure r c scope
  | .unsupported kind => Action.raise .runtime ("Unsupported attribute value " ++ kind)

/-- Writes the parts of a concatenated value. -/
def concatenated (r : Rendering) (scope : Bindings) : List AttributeValue → Action Unit
  | [] => pure ()
  | part :: rest => do
    attributeValue r scope part
    concatenated r scope rest

end

/-- Writes the attributes of an element. -/
def attributes (r : Rendering) (scope : Bindings) : List Attribute → Action Unit
  | [] => pure ()
  | a :: rest => do
    write r (" " ++ a.name)
    match a.value with
    | some v =>
      write r "=\""
      attributeValue r scope v
      write r "\""
    | none => pure ()
    attributes r scope rest

/-! ## Control flow -/

/-- The names that a branch binds, if it is taken. -/
def taken? (r : Rendering) (condition : String) (pattern : Option String) (scope : Bindings) :
    Action (Option Bindings) :=
  match pattern with
  | none => do
    if ← r.evaluator.test condition scope then return some [] else return none
  | some p => do
    let v ← r.evaluator.evaluate condition scope
    r.evaluator.match? p v scope

/-- Runs a body for every item of an iterator, `limit` items at most. -/
def eachItem (r : Rendering) (pattern iterable : String) (scope : Bindings)
    (body : Bindings → Action Unit) (iterator : Nat) : Nat → Action Unit
  | 0 => Action.raise .recursion "maximum recursion depth exceeded"
  | limit + 1 => do
    match ← r.evaluator.next iterable iterator with
    | none => return ()
    | some v =>
      let b ← r.evaluator.bind pattern v scope
      body (b.shadow scope)
      eachItem r pattern iterable scope body iterator limit

/-- The name that an element is closed with. -/
def closingName (name : String) (closeName : Option String) : String :=
  match closeName with
  | some other => if other = "" then name else other
  | none => name

mutual

/-- Writes a node and answers the variables that are then bound. -/
def node (r : Rendering) (scope : Bindings) : Node → Action Bindings
  | .text s => do
    write r s
    return scope
  | .expression e => do
    expression r e scope
    return scope
  | .closure c => do
    closure r c scope
    return scope
  | .element name attrs selfClosing children closeName => do
    write r ("<" ++ name)
    attributes r scope attrs
    if selfClosing then
      write r " />"
      return scope
    else
      write r ">"
      let _ ← nodes r scope children
      write r ("</" ++ closingName name closeName ++ ">")
      return scope
  | .doctype payload => do
    write r ("<!" ++ payload ++ ">")
    return scope
  | .instruction payload => do
    write r ("<?" ++ payload ++ "?>")
    return scope
  | .comment parts => do
    let text ← joinedParts r scope parts
    write r ("<!-- " ++ String.ofList (Escape.escapeComment text.toList) ++ " -->")
    return scope
  | .cdata parts => do
    let text ← joinedParts r scope parts
    write r ("<![CDATA[" ++ String.ofList (Escape.escapeCdata text.toList) ++ "]]>")
    return scope
  | .binding pattern value pos =>
    located r pos do
      let v ← r.evaluator.evaluate value scope
      let b ← r.evaluator.bind pattern v scope
      return b.shadow scope
  | .choice bs (some otherwise) => do
    branches r scope (do let _ ← nodes r scope otherwise) bs
    return scope
  | .choice bs none => do
    branches r scope (pure ()) bs
    return scope
  | .selection scrutinee as pos => do
    located r pos do
      let v ← r.evaluator.evaluate scrutinee scope
      arms r scope v as
    return scope
  | .loop pattern iterable body pos => do
    located r pos do
      let it ← r.evaluator.iterate iterable scope
      eachItem r pattern iterable scope (fun b => do let _ ← nodes r b body) it
        r.evaluator.language.limit
    return scope
  | .unsupported kind => Action.raise .runtime ("Unsupported node " ++ kind)

/-- Writes nodes and answers the variables that are then bound. -/
def nodes (r : Rendering) (scope : Bindings) : List Node → Action Bindings
  | [] => pure scope
  | n :: rest => do
    let b ← node r scope n
    nodes r b rest

/-- Writes the body of the first branch that is taken, or else something else. -/
def branches (r : Rendering) (scope : Bindings) (otherwise : Action Unit) :
    List Branch → Action Unit
  | [] => otherwise
  | .mk condition body pattern pos :: rest => do
    match ← located r pos (taken? r condition pattern scope) with
    | some b => let _ ← nodes r (b.shadow scope) body
    | none => branches r scope otherwise rest

/-- Writes the body of the first arm whose pattern matches. -/
def arms (r : Rendering) (scope : Bindings) (v : Value) : List Arm → Action Unit
  | [] => pure ()
  | .mk pattern body :: rest => do
    match ← r.evaluator.match? pattern v scope with
    | some b => let _ ← nodes r (b.shadow scope) body
    | none => arms r scope v rest

end

/-- Writes a document. -/
def document (ev : Evaluator) (sink : Nat) (d : Document) (scope : Bindings) : Action Unit := do
  let _ ← nodes ⟨ev, sink, d.source⟩ scope d.nodes

end Render

end MarkupTemplate
