import MarkupTemplate.Host.Expr
import MarkupTemplate.Value

/-!
# The store

What lives longer than one step of a run: the objects that can change, and the texts that reached
the sinks.

* `Cell`: an object.
* `Store.output`: the text of a sink.
* `Store.chunks_append_self`: what is written to a sink comes after what it holds.
-/

namespace MarkupTemplate

/-- Where the names of a fragment are looked up: the frames that it sees, innermost first, and the
frame that a name is bound in by an expression. -/
structure Env where
  frames : List Nat
  home : Nat
deriving Repr, Inhabited

/-- An interrupted run over nested clauses: the iterators of the clauses entered so far, innermost
first. -/
structure Comprehension where
  env : Env
  clauses : Host.Clauses
  active : List Nat
deriving Inhabited

/-- What an iterator still has to give. -/
inductive Supply where
  | values (kind : String) (rest : List Value)
  | list (id next : Nat)
  | backwards (id left : Nat)
  | keys (dict size next : Nat)
  | pairs (dict size next : Nat)
  | keysBackwards (dict size left : Nat)
  | numbers (next step : Int) (left : Nat)
  | numbered (inner : Nat) (next : Int)
  | joint (strict : Bool) (inners : List Nat)
  | scripted (rest : List Value) (failure : Option Failure)
  | generator (element : Host.Expr) (state : Comprehension)
  | spent (kind : String)
deriving Inhabited

/-- An object of the store. A frame holds its names; a declared name without a value is unbound. -/
inductive Cell where
  | list (items : List Value)
  | dict (entries : List (Value × Value))
  | record (cls : RecordClass) (fields : Bindings)
  | iterator (supply : Supply)
  | frame (names : List (String × Option Value))
deriving Inhabited

/-- The objects, the texts written to sinks, latest first, the number of sinks in use, and the
number of marks given to values that are told apart by them. -/
structure Store where
  cells : Array Cell
  written : List (Nat × String)
  sinks : Nat
  marks : Nat

namespace Store

/-- The store without objects and sinks. -/
def empty : Store := ⟨#[], [], 0, 0⟩

/-- The texts that reached a sink, latest first. -/
def chunks (s : Store) (sink : Nat) : List String :=
  s.written.filterMap fun (k, text) => if k = sink then some text else none

/-- The text of a sink. -/
def output (s : Store) (sink : Nat) : String :=
  String.join (s.chunks sink).reverse

/-- The object of a number. -/
def cell? (s : Store) (id : Nat) : Option Cell := s.cells[id]?

/-- The store with a further object. -/
def push (s : Store) (c : Cell) : Store := { s with cells := s.cells.push c }

/-- The store without an object that nothing refers to, if no other was made after it. -/
def release (s : Store) (id : Nat) : Store :=
  if s.cells.size = id + 1 then { s with cells := s.cells.pop } else s

/-- The store with an object changed. -/
def put (s : Store) (id : Nat) (c : Cell) : Store :=
  { s with cells := s.cells.setIfInBounds id c }

/-- The store with a text appended to a sink. -/
def append (s : Store) (sink : Nat) (text : String) : Store :=
  { s with written := (sink, text) :: s.written }

/-- The store with a further sink. -/
def addSink (s : Store) : Store := { s with sinks := s.sinks + 1 }

/-- The store with a further mark given. -/
def addMark (s : Store) : Store := { s with marks := s.marks + 1 }

@[simp] theorem written_push (s : Store) (c : Cell) : (s.push c).written = s.written := rfl

@[simp] theorem written_release (s : Store) (id : Nat) : (s.release id).written = s.written := by
  unfold release; split <;> rfl

/-- An object that is given back at once leaves no trace. -/
@[simp] theorem release_push (s : Store) (c : Cell) : (s.push c).release s.cells.size = s := by
  simp [release, push]

@[simp] theorem written_put (s : Store) (id : Nat) (c : Cell) : (s.put id c).written = s.written :=
  rfl

@[simp] theorem written_addSink (s : Store) : s.addSink.written = s.written := rfl

@[simp] theorem written_addMark (s : Store) : s.addMark.written = s.written := rfl

theorem chunks_append_self (s : Store) (sink : Nat) (text : String) :
    (s.append sink text).chunks sink = text :: s.chunks sink := by
  simp [chunks, append]

theorem chunks_append_of_ne (s : Store) {sink other : Nat} (text : String) (h : sink ≠ other) :
    (s.append sink text).chunks other = s.chunks other := by
  simp [chunks, append, h]

end Store

end MarkupTemplate
