import MarkupTemplate.Proofs.Script

/-!
# Scripts of nodes

The script of a node says which texts it writes and which calls it makes, each at the place of the
expression, closure, conditional list or control flow that it is made for. The renderer runs these
scripts: whatever guard it puts around the body of a loop or of an arm, the errors of the calls in
the body are located where the calls are made.

* `Script.node`, `Script.nodes`: the scripts of nodes.
* `Script.run_nodes`: the renderer runs the scripts.
* `Script.run_document`: the same for documents.
-/
namespace MarkupTemplate

open MarkupTemplate.Action

namespace Script

/-! ## Expressions and closures -/

/-- The text of an expression, not escaped. -/
def formatted (e : Expression) (scope : Bindings) : Script String := do
  let v ← ask e.pos (.evaluate e.source scope)
  ask e.pos (.format v e.spec)

/-- Escapes a text for a context. -/
def escaped (context : EscapeContext) (text : String) : Script String :=
  match escape? context text with
  | some s => pure s
  | none => stop .value ("Unknown escaping context " ++ Text.quote context.name)

/-- Writes an expression. -/
def expression (e : Expression) (scope : Bindings) : Script Unit := do
  put (← escaped e.context (← formatted e scope))

/-- The text of parts one after another, not escaped. -/
def joinedParts (scope : Bindings) : List Part → Script String
  | [] => pure ""
  | .literal s :: rest => do return s ++ (← joinedParts scope rest)
  | .expression e :: rest => do
    let s ← formatted e scope
    return s ++ (← joinedParts scope rest)
  | .unsupported kind lacking :: _ =>
    stop .attr ("'" ++ kind ++ "' object has no attribute '" ++ lacking ++ "'")

/-- Runs a closure, which writes to a sink through its binding. -/
def closure (sink : Nat) (c : Closure) (scope : Bindings) : Script Unit :=
  ask c.pos (.execute c.body (Bindings.shadow [(c.binding, .writer sink)] scope))

/-! ## Attributes -/

/-- Writes the texts whose conditions are true. -/
def conditional (pos : Nat) (scope : Bindings) : List (String × String) → Script Unit
  | [] => pure ()
  | (text, condition) :: rest => do
    if ← ask pos (.test condition scope) then
      put (Render.attributeText text ++ " ")
    conditional pos scope rest

mutual

/-- Writes the value of an attribute. -/
def attributeValue (sink : Nat) (scope : Bindings) : AttributeValue → Script Unit
  | .literal s => put (Render.attributeText s)
  | .expression e => expression e scope
  | .conditional items pos => conditional pos scope items
  | .concat parts => concatenated sink scope parts
  | .closure c => closure sink c scope
  | .unsupported kind => stop .runtime ("Unsupported attribute value " ++ kind)

/-- Writes the parts of a concatenated value. -/
def concatenated (sink : Nat) (scope : Bindings) : List AttributeValue → Script Unit
  | [] => pure ()
  | part :: rest => do
    attributeValue sink scope part
    concatenated sink scope rest

end

/-- Writes the attributes of an element. -/
def attributes (sink : Nat) (scope : Bindings) : List Attribute → Script Unit
  | [] => pure ()
  | a :: rest => do
    put (" " ++ a.name)
    match a.value with
    | some v =>
      put "=\""
      attributeValue sink scope v
      put "\""
    | none => pure ()
    attributes sink scope rest

/-! ## Control flow -/

/-- The names that a branch binds, if it is taken. -/
def taken? (pos : Nat) (condition : String) (pattern : Option String) (scope : Bindings) :
    Script (Option Bindings) :=
  match pattern with
  | none => do
    if ← ask pos (.test condition scope) then return some [] else return none
  | some p => do
    let v ← ask pos (.evaluate condition scope)
    ask pos (.matching p v scope)

/-- Runs a body for every item of an iterator, `limit` items at most. -/
def eachItem (pos : Nat) (pattern iterable : String) (scope : Bindings)
    (body : Bindings → Script Unit) (iterator : Nat) : Nat → Script Unit
  | 0 => stop .recursion "maximum recursion depth exceeded"
  | limit + 1 => do
    match ← ask pos (.next iterable iterator) with
    | none => return ()
    | some v =>
      let b ← ask pos (.bind pattern v scope)
      body (b.shadow scope)
      eachItem pos pattern iterable scope body iterator limit

mutual

/-- The script of a node, for a sink and the most items of a loop. -/
def node (sink limit : Nat) (scope : Bindings) : Node → Script Bindings
  | .text s => do
    put s
    return scope
  | .expression e => do
    expression e scope
    return scope
  | .closure c => do
    closure sink c scope
    return scope
  | .element name attrs selfClosing children closeName => do
    put ("<" ++ name)
    attributes sink scope attrs
    if selfClosing then
      put " />"
      return scope
    else
      put ">"
      let _ ← nodes sink limit scope children
      put ("</" ++ Render.closingName name closeName ++ ">")
      return scope
  | .doctype payload => do
    put ("<!" ++ payload ++ ">")
    return scope
  | .instruction payload => do
    put ("<?" ++ payload ++ "?>")
    return scope
  | .comment parts => do
    let text ← joinedParts scope parts
    put ("<!-- " ++ String.ofList (Escape.escapeComment text.toList) ++ " -->")
    return scope
  | .cdata parts => do
    let text ← joinedParts scope parts
    put ("<![CDATA[" ++ String.ofList (Escape.escapeCdata text.toList) ++ "]]>")
    return scope
  | .binding pattern value pos => do
    let v ← ask pos (.evaluate value scope)
    let b ← ask pos (.bind pattern v scope)
    return b.shadow scope
  | .choice bs (some otherwise) => do
    branches sink limit scope (do let _ ← nodes sink limit scope otherwise) bs
    return scope
  | .choice bs none => do
    branches sink limit scope (pure ()) bs
    return scope
  | .selection scrutinee as pos => do
    let v ← ask pos (.evaluate scrutinee scope)
    arms sink limit pos scope v as
    return scope
  | .loop pattern iterable body pos => do
    let it ← ask pos (.iterate iterable scope)
    eachItem pos pattern iterable scope (fun b => do let _ ← nodes sink limit b body) it limit
    return scope
  | .unsupported kind => stop .runtime ("Unsupported node " ++ kind)

/-- The script of nodes. -/
def nodes (sink limit : Nat) (scope : Bindings) : List Node → Script Bindings
  | [] => pure scope
  | n :: rest => do
    let b ← node sink limit scope n
    nodes sink limit b rest

/-- The script of the first branch that is taken, or else another one. -/
def branches (sink limit : Nat) (scope : Bindings) (otherwise : Script Unit) :
    List Branch → Script Unit
  | [] => otherwise
  | .mk condition body pattern pos :: rest => do
    match ← taken? pos condition pattern scope with
    | some b => let _ ← nodes sink limit (b.shadow scope) body
    | none => branches sink limit scope otherwise rest

/-- The script of the first arm whose pattern matches. -/
def arms (sink limit : Nat) (pos : Nat) (scope : Bindings) (v : Value) : List Arm → Script Unit
  | [] => pure ()
  | .mk pattern body :: rest => do
    match ← ask pos (.matching pattern v scope) with
    | some b => let _ ← nodes sink limit (b.shadow scope) body
    | none => arms sink limit pos scope v rest

end

/-- The script of a document. -/
def document (sink limit : Nat) (d : Document) (scope : Bindings) : Script Unit := do
  let _ ← nodes sink limit scope d.nodes

/-! ## The renderer runs the scripts -/

section Run

variable {r : Rendering} {scope : Bindings}

theorem run_formatted (e : Expression) :
    (formatted e scope).run r = Render.formatted r e scope := by
  simp only [formatted, Render.formatted, run_bind, run_ask, Render.located_bind, Call.run]

theorem run_escaped (context : EscapeContext) (text : String) :
    (escaped context text).run r = Render.escaped context text := by
  unfold escaped Render.escaped
  cases escape? context text <;> rfl

theorem run_expression (e : Expression) :
    (expression e scope).run r = Render.expression r e scope := by
  simp only [expression, Render.expression, run_bind, run_put, run_formatted, run_escaped]

theorem run_joinedParts (parts : List Part) :
    (joinedParts scope parts).run r = Render.joinedParts r scope parts := by
  induction parts with
  | nil => rfl
  | cons part rest ih =>
    cases part with
    | literal s => simp only [joinedParts, Render.joinedParts, run_bind, run_pure, ih]
    | expression e =>
      simp only [joinedParts, Render.joinedParts, run_bind, run_pure, run_formatted, ih]
    | unsupported kind lacking => rfl

theorem run_closure (c : Closure) :
    (closure r.sink c scope).run r = Render.closure r c scope := by
  rw [closure, run_ask]
  rfl

theorem run_conditional (pos : Nat) (items : List (String × String)) :
    (conditional pos scope items).run r = Render.conditional r pos scope items := by
  induction items with
  | nil => rfl
  | cons item rest ih =>
    simp only [conditional, Render.conditional, run_bind, run_ask, apply_ite (run r), run_put, ih,
      Call.run]

mutual

theorem run_attributeValue (v : AttributeValue) :
    (attributeValue r.sink scope v).run r = Render.attributeValue r scope v := by
  cases v with
  | literal s => exact run_put _
  | expression e => exact run_expression e
  | conditional items pos => exact run_conditional pos items
  | concat parts => exact run_concatenated parts
  | closure c => exact run_closure c
  | unsupported kind => rfl

theorem run_concatenated (parts : List AttributeValue) :
    (concatenated r.sink scope parts).run r = Render.concatenated r scope parts := by
  cases parts with
  | nil => rfl
  | cons part rest =>
    simp only [concatenated, Render.concatenated, run_bind, run_attributeValue part,
      run_concatenated rest]

end

theorem run_attributes (as : List Attribute) :
    (attributes r.sink scope as).run r = Render.attributes r scope as := by
  induction as with
  | nil => rfl
  | cons a rest ih =>
    cases hv : a.value <;>
      simp only [attributes, Render.attributes, hv, run_bind, run_put, run_attributeValue, ih]

theorem run_taken? (pos : Nat) (condition : String) (pattern : Option String) :
    (taken? pos condition pattern scope).run r
      = Render.located r pos (Render.taken? r condition pattern scope) := by
  cases pattern with
  | none =>
    simp only [taken?, Render.taken?, run_bind, run_ask, Render.located_bind, Call.run,
      apply_ite (run r), apply_ite (Render.located r pos), run_pure]
    rfl
  | some p => simp only [taken?, Render.taken?, run_bind, run_ask, Render.located_bind, Call.run]

/-- The guard of a loop locates the calls that the loop itself makes; in its bodies nothing is left
to locate. -/
theorem run_eachItem {pos : Nat} {pattern iterable : String} {body : Bindings → Script Unit}
    {written : Bindings → Action Unit} (h : ∀ b, (body b).run r = written b)
    (iterator limit : Nat) :
    (eachItem pos pattern iterable scope body iterator limit).run r
      = Render.located r pos
          (Render.eachItem r pattern iterable scope written iterator limit) := by
  induction limit with
  | zero => rfl
  | succ limit ih =>
    rw [eachItem, Render.eachItem, run_bind, run_ask, Render.located_bind]
    refine congrArg (_ >>= ·) (funext fun item => ?_)
    cases item with
    | none => rfl
    | some v =>
      -- The guard of the loop reaches its bodies too, but these are runs of scripts.
      have hbody : ∀ b, Render.located r pos (written b) = written b := fun b => by
        rw [← h, located_run]
      simp only [run_bind, run_ask, Render.located_bind, Call.run, h, hbody, ih]

mutual

theorem run_node (scope : Bindings) (n : Node) :
    (node r.sink r.evaluator.language.limit scope n).run r = Render.node r scope n := by
  cases n with
  | text s | doctype payload | instruction payload =>
    simp only [node, Render.node, run_bind, run_put, run_pure]
  | expression e => simp only [node, Render.node, run_bind, run_expression, run_pure]
  | closure c => simp only [node, Render.node, run_bind, run_closure, run_pure]
  | element name attrs selfClosing children closeName =>
    simp only [node, Render.node, run_bind, run_put, run_attributes, apply_ite (run r),
      run_nodes scope children, run_pure]
  | comment parts | cdata parts =>
    simp only [node, Render.node, run_bind, run_joinedParts, run_put, run_pure]
  | binding pattern value pos =>
    simp only [node, Render.node, run_bind, run_ask, Render.located_bind, Call.run, run_pure]
    rfl
  | choice bs otherwise =>
    cases otherwise with
    | none =>
      simp only [node, Render.node, run_bind, run_branches scope bs (run_pure ()), run_pure]
    | some ns =>
      have hns : (do let _ ← nodes r.sink r.evaluator.language.limit scope ns : Script Unit).run r
          = (do let _ ← Render.nodes r scope ns) := by
        simp only [run_bind, run_nodes scope ns, run_pure]
      simp only [node, Render.node, run_bind, run_branches scope bs hns, run_pure]
  | selection scrutinee as pos =>
    simp only [node, Render.node, run_bind, run_ask, Render.located_bind, Call.run,
      run_arms pos scope _ as, run_pure, Action.bind_assoc]
  | loop pattern iterable body pos =>
    have hbody (b : Bindings) :
        (do let _ ← nodes r.sink r.evaluator.language.limit b body : Script Unit).run r
          = (do let _ ← Render.nodes r b body) := by
      simp only [run_bind, run_nodes b body, run_pure]
    simp only [node, Render.node, run_bind, run_ask, Render.located_bind, Call.run,
      run_eachItem hbody, run_pure, Action.bind_assoc]
  | unsupported kind => rfl

/-- The renderer runs the script of nodes. -/
theorem run_nodes (scope : Bindings) (ns : List Node) :
    (nodes r.sink r.evaluator.language.limit scope ns).run r = Render.nodes r scope ns := by
  cases ns with
  | nil => rfl
  | cons n rest =>
    simp only [nodes, Render.nodes, run_bind, run_node scope n, fun b => run_nodes b rest]

theorem run_branches (scope : Bindings) (bs : List Branch) {otherwise : Script Unit}
    {written : Action Unit} (h : otherwise.run r = written) :
    (branches r.sink r.evaluator.language.limit scope otherwise bs).run r
      = Render.branches r scope written bs := by
  cases bs with
  | nil => exact h
  | cons b rest =>
    obtain ⟨condition, body, pattern, pos⟩ := b
    rw [branches, Render.branches, run_bind, run_taken?]
    refine congrArg (_ >>= ·) (funext fun taken => ?_)
    cases taken with
    | none => exact run_branches scope rest h
    | some b => simp only [run_bind, run_nodes (b.shadow scope) body, run_pure]

/-- The guard of a selection locates the calls of its patterns; in the bodies of its arms nothing is
left to locate. -/
theorem run_arms (pos : Nat) (scope : Bindings) (v : Value) (as : List Arm) :
    (arms r.sink r.evaluator.language.limit pos scope v as).run r
      = Render.located r pos (Render.arms r scope v as) := by
  cases as with
  | nil => rfl
  | cons a rest =>
    obtain ⟨pattern, body⟩ := a
    rw [arms, Render.arms, run_bind, run_ask, Render.located_bind]
    refine congrArg (_ >>= ·) (funext fun matched => ?_)
    cases matched with
    | none => exact run_arms pos scope v rest
    | some b =>
      have hbody : Render.located r pos (Render.nodes r (b.shadow scope) body)
          = Render.nodes r (b.shadow scope) body := by
        rw [← run_nodes (b.shadow scope) body, located_run]
      simp only [run_bind, run_nodes (b.shadow scope) body, run_pure, Render.located_bind, hbody]
      rfl

end

/-- A guard around nodes changes nothing. -/
theorem located_nodes (r : Rendering) (pos : Nat) (scope : Bindings) (ns : List Node) :
    Render.located r pos (Render.nodes r scope ns) = Render.nodes r scope ns := by
  rw [← run_nodes, located_run]

/-- The renderer runs the script of a document. -/
theorem run_document (ev : Evaluator) (sink : Nat) (d : Document) (scope : Bindings) :
    (document sink ev.language.limit d scope).run ⟨ev, sink, d.source⟩
      = Render.document ev sink d scope := by
  rw [document, run_bind]
  exact congrArg (· >>= _) (run_nodes scope d.nodes)

end Run

end Script

end MarkupTemplate
