import MarkupTemplate.Host.Compare
import MarkupTemplate.Word

/-!
# Iteration

Iterators over values: how one is opened, how it gives its next item, and the three ways of using up
the items.

* `Iterate.iter`: the iterator of a value.
* `Iterate.next`: the next item of an iterator.
* `Iterate.advance`: the next place at which the clauses of a comprehension are satisfied.
-/

namespace MarkupTemplate.Host.Iterate

/-- What an iterator over a value has to give, unless the value is an iterator already. -/
def supply? : Value → Action (Option Supply)
  | .tuple items => pure (some (.values "tuple_iterator" items))
  | .str s => pure (some (.values "str_iterator" (Object.characters s)))
  | .range start stop step =>
    pure (some (.numbers start step (Object.rangeLength start stop step)))
  | .itemsView d _ => do
    return some (.pairs d ((← Object.dict? (.object d)).getD []).length 0)
  | .object id => do
    match ← Action.cell? id with
    | some (.list _) => return some (.list id 0)
    | some (.dict entries) => return some (.keys id entries.length 0)
    | _ => return none
  | _ => pure none

/-- The number of an iterator that a value is. -/
def iterator? : Value → Action (Option Nat)
  | .object id => do
    match ← Action.cell? id with
    | some (.iterator _) => return some id
    | _ => return none
  | _ => pure none

/-- The iterator of a value, if it has one. -/
def iter? (v : Value) : Action (Option Nat) :=
  match v with
  | .hooked _ _ .items failure => Action.fail failure
  | _ => do
    match ← iterator? v with
    | some id => return some id
    | none =>
      match ← supply? v with
      | some s => return some (← Object.newIterator s)
      | none => return none

/-- The iterator of a value. -/
def iter (v : Value) : Action Nat := do
  match ← iter? v with
  | some id => return id
  | none => Object.failType v fun t => t ++ " object is not iterable"

/-- The iterator of a value; a text says what is wrong when the value has none, or when it fails to
give one because of its type. -/
def iterOr (v : Value) (text : String) : Action Nat := do
  match ← (iter? v).orElse fun e => if e.isType then pure none else Action.fail e with
  | some id => return id
  | none => Action.raise .type text

/-- Puts what an iterator has left, and answers an item. -/
def give (id : Nat) (left : Supply) (item : Value) : Action (Option Value) := do
  Action.put id (.iterator left)
  return some item

/-- Marks an iterator as exhausted. -/
def finish (id : Nat) (s : Supply) : Action (Option Value) := do
  Action.put id (.iterator (.spent s.typeName))
  return none

/-- The entries of a dictionary that still has the size it had. -/
def sameSize (dict size : Nat) : Action (List (Value × Value)) := do
  let entries := (← Object.dict? (.object dict)).getD []
  if entries.length = size then return entries
  else Action.raise .runtime "dictionary changed size during iteration"

/-- The next items of several iterators, or the place of the first one that has none; `place` is
that of the first iterator. -/
def nextOfAll (self : Interp) (place : Nat) : List Nat → Action (List Value ⊕ Nat)
  | [] => pure (.inl [])
  | id :: rest => do
    match ← self.next id with
    | some v =>
      match ← nextOfAll self (place + 1) rest with
      | .inl vs => return .inl (v :: vs)
      | .inr i => return .inr i
    | none => return .inr place

/-- Fails because the iterator at a place has fewer or more items than those before it. -/
def failUneven {α : Type} (place : Nat) (word : String) : Action α :=
  Action.raise .value ("zip() argument " ++ toString (place + 1) ++ " is " ++ word
    ++ " than argument" ++ (if place = 1 then " 1" else "s 1-" ++ toString place))

/-- Fails when one of several iterators has an item left. -/
def checkSpent (self : Interp) (place : Nat) : List Nat → Action Unit
  | [] => pure ()
  | id :: rest => do
    match ← self.next id with
    | some _ => failUneven place "longer"
    | none => checkSpent self (place + 1) rest

/-- The next items of several iterators together; strict ones have to end at the same time. -/
def nextTogether (self : Interp) (strict : Bool) (inners : List Nat) : Action (Option Value) := do
  match ← nextOfAll self 0 inners, strict with
  | .inl vs, _ => return some (.tuple vs)
  | .inr _, false => return none
  | .inr 0, true =>
    checkSpent self 1 (inners.drop 1)
    return none
  | .inr place, true => failUneven place "shorter"

/-- The next item that an iterator has to give. -/
def nextOf (self : Interp) (id : Nat) (s : Supply) : Action (Option Value) :=
  match s with
  | .values kind (v :: rest) => give id (.values kind rest) v
  | .values _ [] => finish id s
  | .list l i => do
    match ((← Object.list? (.object l)).getD [])[i]? with
    | some v => give id (.list l (i + 1)) v
    | none => finish id s
  | .backwards _ 0 => finish id s
  | .backwards l (n + 1) => do
    match ((← Object.list? (.object l)).getD [])[n]? with
    | some v => give id (.backwards l n) v
    | none => finish id s
  | .keys d size i => do
    match (← sameSize d size)[i]? with
    | some (k, _) => give id (.keys d size (i + 1)) k
    | none => finish id s
  | .pairs d size i => do
    match (← sameSize d size)[i]? with
    | some (k, v) => give id (.pairs d size (i + 1)) (.tuple [k, v])
    | none => finish id s
  | .keysBackwards _ _ 0 => finish id s
  | .keysBackwards d size (n + 1) => do
    match (← sameSize d size)[n]? with
    | some (k, _) => give id (.keysBackwards d size n) k
    | none => finish id s
  | .numbers _ _ 0 => finish id s
  | .numbers k step (n + 1) => give id (.numbers (k + step) step n) (.int k)
  | .numbered inner k => do
    match ← self.next inner with
    | some v => give id (.numbered inner (k + 1)) (.tuple [.int k, v])
    | none => finish id s
  | .joint _ [] => finish id s
  | .joint strict inners => nextTogether self strict inners
  | .scripted (v :: rest) failure => give id (.scripted rest failure) v
  | .scripted [] none => finish id s
  | .scripted [] (some e) => do
    let _ ← finish id s
    Action.fail e.leavingGenerator
  | .generator element state => do
    let _ ← finish id s
    (do
      match ← self.advance state with
      | some state =>
        let v ← self.eval state.env element
        give id (.generator element state) v
      | none => return none).mapFailure Failure.leavingGenerator
  | .spent _ => pure none

/-- The next item of an iterator. -/
def next (self : Interp) (id : Nat) : Action (Option Value) := do
  match ← Action.cell? id with
  | some (.iterator s) => nextOf self id s
  | _ => return none

/-- What a function makes of every item. -/
def collect (self : Interp) (id : Nat) (f : Value → Action Value) : Action (List Value) := do
  match ← self.next id with
  | some v =>
    let w ← f v
    return w :: (← self.collect id f)
  | none => return []

/-- Whether a condition holds of an item; later items are not asked for. -/
def seek (self : Interp) (id : Nat) (f : Value → Action Bool) : Action Bool := do
  match ← self.next id with
  | some v => if ← f v then return true else self.seek id f
  | none => return false

/-- A value passed along the items. -/
def fold (self : Interp) (id : Nat) (start : Value) (f : Value → Value → Action Value) :
    Action Value := do
  match ← self.next id with
  | some v => self.fold id (← f start v) f
  | none => return start

/-- Fails when a value has more items than a machine word counts. -/
def checkLength : Value → Action Unit
  | .range start stop step =>
    if Object.rangeLength start stop step < Word.bound 64 then pure ()
    else Action.raise .overflow "Python int too large to convert to C ssize_t"
  | _ => pure ()

/-- The items of a value. -/
def items (self : Interp) (v : Value) : Action (List Value) := do
  checkLength v
  self.collect (← iter v) pure

/-- The items of a value that is to be a pair, `i` being its place. -/
def pairItems (self : Interp) (i : Nat) (item : Value) : Action (List Value) := do
  let text := "cannot convert dictionary update sequence element #" ++ toString i
    ++ " to a sequence"
  let it ← iterOr item text
  (self.collect it pure).orElse fun e =>
    if e.isType then Action.raise .type text else Action.fail e

/-- The pair that an item makes up, given with its place. -/
def pair (self : Interp) (numbered : Value) : Action Value := do
  match numbered with
  | .tuple [.int i, item] =>
    match ← pairItems self i.toNat item with
    | [k, v] =>
      Compare.checkKey k
      return .tuple [k, v]
    | vs =>
      Action.raise .value ("dictionary update sequence element #" ++ toString i ++ " has length "
        ++ toString vs.length ++ "; 2 is required")
  | v => return v

/-- The pairs among some values. -/
def pairsOf (vs : List Value) : List (Value × Value) :=
  vs.filterMap fun
    | .tuple [k, v] => some (k, v)
    | _ => none

/-- The entries that the items of an iterator make up, each item being a pair. -/
def entries (self : Interp) (it : Nat) : Action (List (Value × Value)) := do
  return pairsOf (← self.collect (← Object.newIterator (.numbered it 0)) (pair self))

/-- The entries of a dictionary, or those that the items of another value make up. -/
def entriesOf (self : Interp) (v : Value) : Action (List (Value × Value)) := do
  match ← Object.dict? v with
  | some entries => return entries
  | none => entries self (← iter v)

/-- At most `n` further items. -/
def take (self : Interp) (id : Nat) : Nat → Action (List Value)
  | 0 => pure []
  | n + 1 => do
    match ← self.next id with
    | some v => return v :: (← take self id n)
    | none => return []

/-! ## Comprehensions -/

/-- Whether all conditions are true. -/
def allTrue (self : Interp) (env : Env) : List Expr → Action Bool
  | [] => pure true
  | e :: rest => do
    if ← Compare.truth (← self.eval env e) then allTrue self env rest else return false

/-- The next place at which all clauses are satisfied. -/
def advance (self : Interp) (c : Comprehension) : Action (Option Comprehension) :=
  match c.active with
  | [] => pure none
  | id :: outer => do
    match ← self.next id, c.clauses[outer.length]? with
    | some v, some (target, _, conditions) =>
      self.assign c.env (c.env.frames.headD 0) target v
      if ← allTrue self c.env conditions then
        match c.clauses[outer.length + 1]? with
        | none => return some c
        | some (_, iterable, _) =>
          let inner ← iter (← self.eval c.env iterable)
          self.advance { c with active := inner :: c.active }
      else self.advance c
    | _, _ => self.advance { c with active := outer }

/-- The values of an expression at all places where the clauses are satisfied; each is checked
before the next place is looked for. -/
def gather (self : Interp) (element : Expr) (check : Value → Action Unit) (c : Comprehension) :
    Action (List Value) := do
  match ← self.advance c with
  | some c =>
    let v ← self.eval c.env element
    check v
    return v :: (← self.gather element check c)
  | none => return []

end MarkupTemplate.Host.Iterate
