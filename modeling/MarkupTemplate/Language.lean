import MarkupTemplate.Action

/-!
# Host languages

What the renderer asks of the language that the fragments of a template are written in. Each
operation may fail in any way.

* `Language`: the operations.
-/

namespace MarkupTemplate

/-- A language for the fragments of templates. -/
structure Language where
  /-- The most items that a loop takes from an iterator. -/
  limit : Nat
  /-- The value of an expression. -/
  evaluate : String → Bindings → Action Value
  /-- Whether a value counts as true. -/
  truth : Value → Action Bool
  /-- The iterator over a value. -/
  iter : Value → Action Nat
  /-- The next item of an iterator. -/
  next : Nat → Action (Option Value)
  /-- The names that a pattern with an optional guard binds, when a value matches. -/
  matching : String → Value → Bindings → Action (Option Bindings)
  /-- Runs statements. -/
  execute : String → Bindings → Action Unit
  /-- A value laid out by a format spec. -/
  format : String → Value → Action String
  /-- The name of the type of a value. -/
  typeName : Value → Action String

end MarkupTemplate
