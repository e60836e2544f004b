import MarkupTemplate.Host.Object

/-!
# The interpreter's parts

Evaluating an expression may call a function, which may iterate, which may evaluate again. The parts
that need each other are the fields of one structure; each part is written against a given
interpreter, and the interpreter of a level runs its parts with that of the level below.

* `Interp`: the parts.
* `Flow`: how a statement ends.
* `Arguments`: what a function is called with.
-/

namespace MarkupTemplate.Host

/-- How a statement ends: the next one follows, or the loop around it is left or continued. -/
inductive Flow where
  | onward
  | leave
  | proceed
deriving DecidableEq, Repr, Inhabited

/-- What a function is called with. -/
structure Arguments where
  positional : List Value
  named : Bindings
deriving Inhabited

/-- The parts of an interpreter. -/
structure Interp where
  /-- The value of an expression. -/
  eval : Env → Expr → Action Value
  /-- Runs statements. -/
  exec : Env → List Stmt → Action Flow
  /-- Runs statements for every item of an iterator. -/
  forEach : Env → Expr → Nat → List Stmt → Action Flow
  /-- Assigns a value to a target, names of which are bound in a frame. -/
  assign : Env → Nat → Expr → Value → Action Unit
  /-- Calls a value. -/
  call : Value → Arguments → Action Value
  /-- The next item of an iterator. -/
  next : Nat → Action (Option Value)
  /-- What a function makes of every item of an iterator. -/
  collect : Nat → (Value → Action Value) → Action (List Value)
  /-- Whether a condition holds of an item of an iterator; later items are not asked for. -/
  seek : Nat → (Value → Action Bool) → Action Bool
  /-- A value passed along the items of an iterator. -/
  fold : Nat → Value → (Value → Value → Action Value) → Action Value
  /-- The next place at which all clauses are satisfied. -/
  advance : Comprehension → Action (Option Comprehension)
  /-- The values of an expression at all places where the clauses are satisfied, each checked. -/
  gather : Expr → (Value → Action Unit) → Comprehension → Action (List Value)
  /-- The text that shows a value inside the given values. -/
  display : List Value → Value → Action String
  /-- Whether two values are equal. -/
  equal : Value → Value → Action Bool
  /-- Whether an order holds between two values. -/
  order : CompareOp → Value → Value → Action Bool
  /-- The names that a pattern binds when a value matches. -/
  matching : Env → Pattern → Value → Action (Option Bindings)
  /-- Renders a template text with the variables of a scope and with variables given by name. -/
  render : String → Action Bindings → Bindings → Action String

instance : Inhabited Interp :=
  ⟨⟨default, default, default, default, default, default, default, default, default, default,
    default, default, default, default, default, default⟩⟩

end MarkupTemplate.Host
