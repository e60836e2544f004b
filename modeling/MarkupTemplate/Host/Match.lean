import MarkupTemplate.Host.Eval
import MarkupTemplate.Host.Pattern.Read

/-!
# Matching

Whether a value has the form that a pattern describes, and the names that the pattern then binds.
Names are bound only after the whole pattern has matched. A clause that matches answers what the
function `locals` lists, or whatever is found under that name.

* `Matching.pattern`: one step of matching a value.
* `Matching.answer`: the names that a clause answers.
* `Matching.clause`: a pattern with its guard, in a frame of its own.
-/

namespace MarkupTemplate.Host.Matching

/-- The name under which a clause sees the value that it is matched against. -/
def subject : String := "__xfmt_subject__"

/-- The name of the function that lists the names of a clause. -/
def lister : String := "locals"

/-- The bindings of several patterns, each matched against its value. -/
def all (self : Interp) (env : Env) : List (Pattern × Value) → Action (Option Bindings)
  | [] => pure (some [])
  | (p, v) :: rest => do
    match ← self.matching env p v with
    | none => return none
    | some b =>
      match ← all self env rest with
      | none => return none
      | some c => return some (b ++ c)

/-- The bindings of the first pattern that matches. -/
def first (self : Interp) (env : Env) (v : Value) : List Pattern → Action (Option Bindings)
  | [] => pure none
  | p :: rest => do
    match ← self.matching env p v with
    | some b => return some b
    | none => first self env v rest

/-- A sequence: how many items it has, and as many of them as are asked for from a place on. -/
structure Sequence where
  length : Nat
  items : Nat → Nat → List Value

/-- A value that counts as a sequence. -/
def sequence? (v : Value) : Action (Option Sequence) := do
  match v with
  | .range start stop step =>
    return some ⟨Object.rangeLength start stop step, fun i n =>
      Object.rangeItems (start + i * step) step n⟩
  | _ =>
    return (← Object.sequence? v).map fun items =>
      ⟨items.length, fun i n => (items.drop i).take n⟩

/-- The values of keys; no two of them may be equal. -/
def keys (self : Interp) (env : Env) (done : List Value) : List Expr → Action (List Value)
  | [] => pure done.reverse
  | e :: rest => do
    keys self env ((← self.eval env e) :: done) rest

/-- The values at some keys, if all are there. -/
def found (self : Interp) (entries : List (Value × Value)) (seen : List Value) :
    List Value → Action (Option (List Value))
  | [] => pure (some [])
  | k :: rest => do
    Compare.checkKey k
    if seen.any (Compare.sameKey k) then
      Action.raise .value ("mapping pattern checks duplicate key (" ++ (← Display.whole self k)
        ++ ")")
    else
      match Compare.find? k entries with
      | none => return none
      | some v =>
        match ← found self entries (k :: seen) rest with
        | none => return none
        | some vs => return some (v :: vs)

/-- A mapping pattern. -/
def mapping (self : Interp) (env : Env) (parts : List (Expr × Pattern)) (rest : Option String)
    (entries : List (Value × Value)) : Action (Option Bindings) := do
  if entries.length < parts.length then return none
  else
    let ks ← keys self env [] (parts.map (·.1))
    match ← found self entries [] ks with
    | none => return none
    | some vs =>
      match ← all self env ((parts.map (·.2)).zip vs) with
      | none => return none
      | some b =>
        match rest with
        | none => return some b
        | some name =>
          let left := entries.filter fun e => !ks.any (Compare.sameKey e.1)
          return some (b ++ [(name, ← Object.newDict left)])

/-- The classes whose instances match their only positional sub-pattern themselves. -/
def isSelfMatching : BuiltinClass → Bool
  | .int => true
  | .bool => true
  | .str => true
  | .float => true
  | .list => true
  | .tuple => true
  | .dict => true
  | _ => false

/-- Fails because of too many positional sub-patterns. -/
def failCount {α : Type} (name : String) (allowed given : Nat) : Action α :=
  Action.raise .type (name ++ "() accepts " ++ toString allowed ++ " positional sub-pattern"
    ++ Parameters.plural allowed ++ " (" ++ toString given ++ " given)")

/-- The members of a value, each under a name of its own. -/
def members (cls : String) (v : Value) (seen : List String) :
    List String → Action (Option (List Value))
  | [] => pure (some [])
  | name :: rest => do
    if seen.contains name then
      Action.raise .type (cls ++ "() got multiple sub-patterns for attribute " ++ Text.quote name)
    else
      let found ← ((some <$> Item.member v name).orElse fun
        | .host ⟨.attr, _⟩ => pure none
        | e => Action.fail e)
      match found with
      | none => return none
      | some w =>
        match ← members cls v (name :: seen) rest with
        | none => return none
        | some ws => return some (w :: ws)

/-- A class pattern, its class being known and the value an instance of it. -/
def instanceOf (self : Interp) (env : Env) (c : Class) (positional : List Pattern)
    (named : List (String × Pattern)) (v : Value) : Action (Option Bindings) := do
  let (fields, whole) := match c with
    | .record r => (r.fields, false)
    | .builtin b => ([], isSelfMatching b)
  let allowed := if whole then 1 else fields.length
  if positional.length > allowed then failCount c.name allowed positional.length
  else
    let places := if whole then [] else fields.take positional.length
    match ← members c.name v [] (places ++ named.map (·.1)) with
    | none => return none
    | some ws =>
      let values := if whole then List.replicate positional.length v ++ ws else ws
      all self env ((positional ++ named.map (·.2)).zip values)

/-- The bindings of a pattern when a value matches. -/
def pattern (self : Interp) (env : Env) (p : Pattern) (v : Value) : Action (Option Bindings) := do
  match p with
  | .literal e =>
    let w ← self.eval env e
    if ← self.equal v w then return some [] else return none
  | .constant c => return if Object.same v (Eval.ofLiteral c) then some [] else none
  | .value e =>
    let w ← self.eval env e
    if ← self.equal v w then return some [] else return none
  | .wildcard => return some []
  | .capture id => return some [(id, v)]
  | .sequence ps =>
    match ← sequence? v with
    | none => return none
    | some s =>
      Iterate.checkLength v
      if s.length = ps.length then all self env (ps.zip (s.items 0 s.length)) else return none
  | .starSequence before rest after =>
    match ← sequence? v with
    | none => return none
    | some s =>
      let fixed := before.length + after.length
      if fixed != 0 || rest.isSome then Iterate.checkLength v
      if s.length < fixed then return none
      else
        match ← all self env (before.zip (s.items 0 before.length)) with
        | none => return none
        | some b =>
          let m ← match rest with
            | some id => do
              pure [(id, ← Object.newList (s.items before.length (s.length - fixed)))]
            | none => pure []
          match ← all self env (after.zip (s.items (s.length - after.length) after.length)) with
          | none => return none
          | some c => return some (b ++ m ++ c)
  | .mapping parts rest =>
    match ← Object.dict? v with
    | some entries => mapping self env parts rest entries
    | none => return none
  | .instance cls positional named =>
    match ← self.eval env cls with
    | .cls c =>
      if ← Builtin.belongs v c then instanceOf self env c positional named v else return none
    | _ => Action.raise .type "called match pattern must be a type"
  | .alternatives ps => first self env v ps
  | .alias p id =>
    match ← self.matching env p v with
    | some b => return some (b ++ [(id, v)])
    | none => return none

/-- The bound names of a frame. -/
def boundIn (frame : Nat) : Action Bindings := do
  match ← Action.cell? frame with
  | some (.frame names) => return names.filterMap fun (id, v) => v.map fun v => (id, v)
  | _ => return []

/-- True when one of the frames declares a name. -/
def isDeclared (name : String) (frames : List Nat) : Action Bool :=
  frames.anyM fun frame => do return (← Object.inFrame? frame name).isSome

/-- The names that a listed value stands for: the entries of a dictionary, from which the subject is
taken. -/
def listed (self : Interp) (v : Value) : Action (Option Bindings) := do
  match v, ← Object.dict? v with
  | .none, _ => return none
  | .object id, some entries =>
    let left := entries.filter fun e => !Compare.sameKey (.str subject) e.1
    Action.put id (.dict left)
    return some (left.filterMap fun
      | (.str name, w) => some (name, w)
      | _ => none)
  | _, _ =>
    let _ ← self.call (← Item.member v "pop") ⟨[.str subject, .none], []⟩
    return none

/-- The names that a clause answers, those of its frame unless something else goes by the name of
the function that lists them. -/
def answer (self : Interp) (env : Env) : Action (Option Bindings) := do
  if ← isDeclared lister env.frames then
    listed self (← self.call (← Object.lookUp lister true env.frames) ⟨[], []⟩)
  else return some ((← boundIn env.home).filter (·.1 != subject))

/-- A clause matched against a value: its names live in a frame of their own, in front of the names
that it sees. -/
def clause (self : Interp) (names : Nat) (c : Clause) (v : Value) : Action (Option Bindings) := do
  let guardNames := match c.guard with
    | some g => g.assignedNames
    | none => []
  let frame ← Object.newFrame (c.pattern.names ++ guardNames)
  Object.setName frame subject v
  let env : Env := ⟨[frame, names], frame⟩
  match ← self.matching env c.pattern v with
  | none => return none
  | some b =>
    b.forM fun (id, w) => Object.setName frame id w
    let holds ← match c.guard with
      | some g => do Compare.truth (← self.eval env g)
      | none => pure true
    if holds then answer self env else return none

end MarkupTemplate.Host.Matching
