import MarkupTemplate.Host.Exec
import MarkupTemplate.Host.Guard
import MarkupTemplate.Host.Layout
import MarkupTemplate.Host.Match
import MarkupTemplate.Host.Stmt.Read
import MarkupTemplate.Template

/-!
# The host language at work

The interpreter of a level runs its parts with that of the level below, so that a level bounds how
deep a run can go; the language of a level is what templates are rendered with.

* `Host.interp`: the interpreter of a level.
* `Host.language`: the language of a level.
-/

namespace MarkupTemplate.Host

/-- The failure of a run that goes too deep. -/
def tooDeep {α : Type} : Action α := Action.raise .recursion "maximum recursion depth exceeded"

/-- The interpreter that has no level left. -/
def exhausted : Interp where
  eval _ _ := tooDeep
  exec _ _ := tooDeep
  forEach _ _ _ _ := tooDeep
  assign _ _ _ _ := tooDeep
  call _ _ := tooDeep
  next _ := tooDeep
  collect _ _ := tooDeep
  seek _ _ := tooDeep
  fold _ _ _ := tooDeep
  advance _ := tooDeep
  gather _ _ _ := tooDeep
  display _ _ := tooDeep
  equal _ _ := tooDeep
  order _ _ _ := tooDeep
  matching _ _ _ := tooDeep
  render _ _ _ := tooDeep

/-- The failure of a fragment that cannot be read. -/
def malformed {α : Type} : Action α := Action.fail (.host ⟨.malformed, none⟩)

/-- Goes on with a fragment only if it could be read and has no null character. -/
def reading {α β : Type} (source : List Char) (read : Option α) (run : α → Action β) : Action β :=
  if source.contains '\x00' then
    Action.raise .value "source code string cannot contain null bytes"
  else
    match read with
    | some a => run a
    | none => malformed

/-- The surroundings of a fragment that sees the given names. -/
def environment (names : Bindings) : Action Env := do
  let frame ← Object.frameOf names
  return ⟨[frame], frame⟩

/-- Runs a fragment that sees the given names. The frame of a fragment that ended well goes with it,
unless it made objects that may look names up there. -/
def within {α : Type} (names : Bindings) (run : Env → Action α) : Action α := do
  let env ← environment names
  let a ← run env
  Action.release env.home
  return a

/-- The value of the expression that a text spells. -/
def evaluate (self : Interp) (source : String) (names : Bindings) : Action Value :=
  reading source.toList (Expr.ofSource? source.toList) fun e =>
    within names fun env => self.eval env e

/-- The names that the pattern of a text binds, when a value matches. -/
def matching (self : Interp) (source : String) (v : Value) (names : Bindings) :
    Action (Option Bindings) :=
  match splitGuard source.toList with
  | .error e => Action.fail (.host e)
  | .ok (pattern, guard) =>
    reading source.toList (Clause.ofParts? pattern guard) fun c => do
      Matching.clause self (← Object.frameOf names) c v

/-- Runs the statements that a text spells. -/
def execute (self : Interp) (source : String) (names : Bindings) : Action Unit :=
  reading source.toList (Stmt.ofSource? (Layout.normalize source.toList)) fun statements =>
    within names fun env => do
      let _ ← self.exec env statements
      return ()

/-- The language whose parts an interpreter runs. -/
def languageOf (self : Interp) (limit : Nat) : Language where
  limit
  evaluate := evaluate self
  truth := Compare.truth
  iter := Iterate.iter
  next := self.next
  matching := matching self
  execute := execute self
  format := Display.format self
  typeName := Object.className

/-- The interpreter of a level. -/
def interp : Nat → Interp
  | 0 => exhausted
  | n + 1 =>
    { eval := fun env e => Eval.eval (interp n) env e
      exec := fun env ss => Exec.exec (interp n) env ss
      forEach := fun env target it body => Exec.forEach (interp n) env target it body
      assign := fun env frame target v => Eval.assign (interp n) env frame target v
      call := fun v args => Call.apply (interp n) v args
      next := fun it => Iterate.next (interp n) it
      collect := fun it f => Iterate.collect (interp n) it f
      seek := fun it f => Iterate.seek (interp n) it f
      fold := fun it start f => Iterate.fold (interp n) it start f
      advance := fun c => Iterate.advance (interp n) c
      gather := fun e check c => Iterate.gather (interp n) e check c
      display := fun inside v => Display.shown (interp n) inside v
      equal := fun a b => Compare.equal (interp n) a b
      order := fun op a b => Compare.order (interp n) op a b
      matching := fun env p v => Matching.pattern (interp n) env p v
      render := fun source scope named =>
        Template.renderOnce (languageOf (interp n) n) source scope named }

/-- The language of a level. -/
def language (level : Nat) : Language := languageOf (interp level) level

/-- A level that no run is meant to reach. -/
def deepest : Nat := 1000000000

end MarkupTemplate.Host
