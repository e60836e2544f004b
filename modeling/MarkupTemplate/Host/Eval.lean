import MarkupTemplate.Host.Bound
import MarkupTemplate.Host.Call

/-!
# Evaluation

The values of expressions, and the assignment of values to targets.

* `Eval.eval`: the value of an expression.
* `Eval.assign`: gives a target its value.
-/

namespace MarkupTemplate.Host.Eval

/-- The value of a constant. -/
def ofLiteral : Literal → Value
  | .none => .none
  | .ellipsis => .ellipsis
  | .bool b => .bool b
  | .int n => .int n
  | .float x => .float x 0
  | .imaginary x => .complex ⟨0.0, x⟩ 0
  | .str s => .str s

/-- The items of a starred value; `context` tells what the star belongs to. -/
def spread (self : Interp) (v : Value) (context : Action String) : Action (List Value) := do
  match ← Iterate.iter? v with
  | some it => self.collect it pure
  | none =>
    let context ← context
    Action.raise .type (context ++ " after * must be an iterable, not " ++ (← Object.typeName v))

/-- The values of expressions, starred ones giving all their items. -/
def values (self : Interp) (env : Env) : List Expr → Action (List Value)
  | [] => pure []
  | .starred e :: rest => do
    let items ← spread self (← self.eval env e) (pure "Value")
    return items ++ (← values self env rest)
  | e :: rest => do
    let v ← self.eval env e
    return v :: (← values self env rest)

/-- The longest run of entries that are put into a dictionary at once. -/
def longestRun : Nat := 15

/-- Puts a run of entries, the last one first, into a dictionary. -/
def putRun (run done : List (Value × Value)) : Action (List (Value × Value)) := do
  run.reverse.forM fun entry => Compare.checkKey entry.1
  return Compare.insertAll run.reverse done

/-- The entries of a dictionary. Those between two spread dictionaries are all evaluated before they
are put in, unless there are too many of them. -/
def entries (self : Interp) (env : Env) (done run : List (Value × Value)) :
    List (Option Expr × Expr) → Action (List (Value × Value))
  | [] => putRun run done
  | (some k, v) :: rest => do
    let key ← self.eval env k
    let value ← self.eval env v
    let run := (key, value) :: run
    if run.length ≤ longestRun then entries self env done run rest
    else entries self env (← putRun run done) [] rest
  | (none, d) :: rest => do
    let done ← putRun run done
    let v ← self.eval env d
    match ← Object.dict? v with
    | some more => entries self env (Compare.insertAll more done) [] rest
    | none => Object.failType v fun t => t ++ " object is not a mapping"

/-- What is called, as messages about the call give it. -/
def calledName (self : Interp) (v : Value) : Action String := do
  match v with
  | .function f =>
    return (if Function.helpers.contains f then "xfmt.helpers." else "") ++ f.name ++ "()"
  | .renderer => return "xfmt.template.render()"
  | .constant _ _ => return "function object"
  | .failing _ _ => return "function object"
  | .cls (.record c) => return "__main__." ++ c.name ++ "()"
  | .cls c => return c.name ++ "()"
  | .method (.writer _) m => return "xfmt.generator.Writer." ++ m.name ++ "()"
  | .method owner m => return (← Object.typeName owner) ++ "." ++ m.name ++ "()"
  | .unbound c m => return c.name ++ "." ++ m.name ++ "()"
  | v => Display.plain self v

/-- Named arguments with further ones, none of which may be given twice. -/
def joinNames (self : Interp) (function : Value) (done more : List (Value × Value)) :
    Action (List (Value × Value)) := do
  match more.find? fun m => (Compare.find? m.1 done).isSome with
  | some (name, _) =>
    Action.raise .type ((← calledName self function)
      ++ " got multiple values for keyword argument '" ++ (← Display.plain self name) ++ "'")
  | none => return done ++ more

/-- The named arguments of a call, with their names as values. -/
def named (self : Interp) (env : Env) (function : Value) (done : List (Value × Value)) :
    List (Option String × Expr) → Action (List (Value × Value))
  | [] => pure done
  | (some id, e) :: rest => do
    let more ← joinNames self function done [(.str id, ← self.eval env e)]
    named self env function more rest
  | (none, e) :: rest => do
    let v ← self.eval env e
    match ← Object.dict? v with
    | none =>
      Action.raise .type ((← calledName self function)
        ++ " argument after ** must be a mapping, not " ++ (← Object.typeName v))
    | some more => named self env function (← joinNames self function done more) rest

/-- The bindings of named arguments, whose names have to be texts. -/
def namesOf : List (Value × Value) → Action Bindings
  | [] => pure []
  | (.str id, v) :: rest => do return (id, v) :: (← namesOf rest)
  | _ => Action.raise .type "keywords must be strings"

/-- A chain of comparisons; it ends with the first that does not hold. -/
def chain (self : Interp) (env : Env) (left : Value) : List (CompareOp × Expr) → Action Value
  | [] => pure (.bool true)
  | (op, e) :: rest => do
    let right ← self.eval env e
    let holds ← Operate.compare self op left right
    if holds && !rest.isEmpty then chain self env right rest else return .bool holds

/-- The value of an expression that may be left out. -/
def optional (self : Interp) (env : Env) : Option Expr → Action Value
  | some e => self.eval env e
  | none => pure .none

/-- The start of a comprehension: the first iterable belongs to the surroundings. -/
def start (self : Interp) (env : Env) (clauses : Clauses) : Action Comprehension := do
  let first ← match clauses with
    | (_, iterable, _) :: _ => do pure [← Iterate.iter (← self.eval env iterable)]
    | [] => pure []
  let frame ← Object.newFrame (clauses.flatMap fun c => c.1.targetNames)
  return ⟨{ env with frames := frame :: env.frames }, clauses, first⟩

/-- The texts among some values, one after another. -/
def concatenated (vs : List Value) : String := String.join (Helper.textsOf vs)

/-- Fails when the first one of a pair cannot be a key. -/
def checkEntry : Value → Action Unit
  | .tuple (k :: _) => Compare.checkKey k
  | _ => pure ()

/-- A replacement field of a text. -/
def fieldText (self : Interp) (v : Value) (conversion : Option Char) (spec : Value) :
    Action Value := do
  let v ← match conversion with
    | some 'r' => do pure (.str (← Display.whole self v))
    | some 'a' => do pure (.str (← Display.ascii self v))
    | some _ => do pure (.str (← Display.plain self v))
    | none => pure v
  Helper.formatted self spec v

/-- The value of an expression. The name that cannot be bound is always true. -/
def eval (self : Interp) (env : Env) (e : Expr) : Action Value := do
  match e with
  | .literal v => return ofLiteral v
  | .name id => if Expr.isFree id then Object.lookUp id true env.frames else return .bool true
  | .tuple items => return .tuple (← values self env items)
  | .list items => Object.newList (← values self env items)
  | .dict es => Object.newDict (← entries self env [] [] es)
  | .starred _ => Action.fail (.host ⟨.malformed, none⟩)
  | .unary op e => Operate.unary op (← self.eval env e)
  | .binary op a b =>
    let left ← self.eval env a
    let right ← self.eval env b
    Operate.binary self op left right
  | .both a b =>
    let left ← self.eval env a
    if ← Compare.truth left then self.eval env b else return left
  | .either a b =>
    let left ← self.eval env a
    if ← Compare.truth left then return left else self.eval env b
  | .compare a rest => chain self env (← self.eval env a) rest
  | .ifElse test yes no =>
    if ← Compare.truth (← self.eval env test) then self.eval env yes else self.eval env no
  | .member o name => Item.member (← self.eval env o) name
  | .item o i =>
    let object ← self.eval env o
    let index ← self.eval env i
    Item.get self object index
  | .slice a b c =>
    let start ← optional self env a
    let stop ← optional self env b
    let step ← optional self env c
    return .slice start stop step
  | .call f args names =>
    let function ← self.eval env f
    match args with
    | [.starred e] =>
      let v ← self.eval env e
      let names ← named self env function [] names
      let positional ← spread self v (do return (← calledName self function) ++ " argument")
      self.call function ⟨positional, ← namesOf names⟩
    | _ =>
      let positional ← values self env args
      let names ← named self env function [] names
      self.call function ⟨positional, ← namesOf names⟩
  | .assign id e =>
    let v ← self.eval env e
    Object.setName env.home id v
    return v
  | .listOf e clauses =>
    Object.newList (← self.gather e (fun _ => pure ()) (← start self env clauses))
  | .dictOf k v clauses =>
    let pairs ← self.gather (.tuple [k, v]) checkEntry (← start self env clauses)
    Object.newDict (Compare.insertAll (Iterate.pairsOf pairs) [])
  | .generator e clauses =>
    return .object (← Object.newIterator (.generator e (← start self env clauses)))
  | .joined parts => return .str (concatenated (← values self env parts))
  | .field e conversion spec =>
    let v ← self.eval env e
    fieldText self v conversion (← self.eval env spec)

/-! ## Assignment -/

/-- The items of a value for a number of targets. -/
def unpackExactly (self : Interp) (n : Nat) (v : Value) : Action (List Value) := do
  match ← Iterate.iter? v with
  | none => Action.raise .type ("cannot unpack non-iterable " ++ (← Object.typeName v) ++ " object")
  | some it =>
    let items ← Iterate.take self it (n + 1)
    if items.length < n then
      Action.raise .value ("not enough values to unpack (expected " ++ toString n ++ ", got "
        ++ toString items.length ++ ")")
    else if items.length = n then return items
    else Action.raise .value ("too many values to unpack (expected " ++ toString n ++ ")")

/-- The items of a value for targets before and after a starred one, which takes a list. -/
def unpackAround (self : Interp) (before after : Nat) (v : Value) : Action (List Value) := do
  match ← Iterate.iter? v with
  | none => Action.raise .type ("cannot unpack non-iterable " ++ (← Object.typeName v) ++ " object")
  | some it =>
    let items ← self.collect it pure
    if items.length < before + after then
      Action.raise .value ("not enough values to unpack (expected at least "
        ++ toString (before + after) ++ ", got " ++ toString items.length ++ ")")
    else
      let rest := items.drop before
      let middle ← Object.newList (rest.take (rest.length - after))
      return items.take before ++ middle :: rest.drop (rest.length - after)

/-- Gives each target its value. -/
def assignAll (self : Interp) (env : Env) (frame : Nat) : List Expr → List Value → Action Unit
  | .starred e :: targets, v :: vs => do
    self.assign env frame e v
    assignAll self env frame targets vs
  | e :: targets, v :: vs => do
    self.assign env frame e v
    assignAll self env frame targets vs
  | _, _ => pure ()

/-- True of a starred target. -/
def isStarred : Expr → Bool
  | .starred _ => true
  | _ => false

/-- Gives targets the items of a value. -/
def unpack (self : Interp) (env : Env) (frame : Nat) (targets : List Expr) (v : Value) :
    Action Unit := do
  let before := (targets.takeWhile (!isStarred ·)).length
  let items ←
    if before = targets.length then unpackExactly self before v
    else unpackAround self before (targets.length - before - 1) v
  assignAll self env frame targets items

/-- Gives a target its value; names are bound in a frame. -/
def assign (self : Interp) (env : Env) (frame : Nat) (target : Expr) (v : Value) :
    Action Unit := do
  match target with
  | .name id => Object.setName frame id v
  | .tuple targets => unpack self env frame targets v
  | .list targets => unpack self env frame targets v
  | .member o name => Item.setMember (← self.eval env o) name v
  | .item o i =>
    let object ← self.eval env o
    let index ← self.eval env i
    Item.set self object index v
  | _ => Action.fail (.host ⟨.malformed, none⟩)

end MarkupTemplate.Host.Eval
