import MarkupTemplate.Host.Percent

/-!
# Operators

What the operators do with values: arithmetic on numbers, joining and repeating sequences, merging
dictionaries, and filling in the fields of a text.

* `Operate.binary`: an operator between two values.
* `Operate.update`: an operator that assigns its result, which changes lists and dictionaries.
* `Operate.unary`: an operator before a value.
-/

namespace MarkupTemplate.Host.Operate

/-- The name of an operator in a message. -/
def signOf (op : BinaryOp) (assigning : Bool) : String :=
  if assigning then op.sign ++ "="
  else if op = .pow then "** or pow()"
  else op.sign

/-- Fails because an operator is not defined for two values. -/
def failOperands {α : Type} (sign : String) (a b : Value) : Action α := do
  let left ← Object.quotedType a
  let right ← Object.quotedType b
  Action.raise .type
    ("unsupported operand type(s) for " ++ sign ++ ": " ++ left ++ " and " ++ right)

/-- Fails because a sequence is not joined to a value of another type. -/
def failJoin {α : Type} (a b : Value) : Action α := do
  let left ← Object.typeName a
  let right ← Object.typeName b
  Action.raise .type ("can only concatenate " ++ left ++ " (not \"" ++ right ++ "\") to " ++ left)

/-- Items repeated; the number of times has to be a machine word, and the items have to fit in
memory. -/
def repeated {α : Type} (items : List α) (n : Int) : Action (List α) :=
  if !Word.holds 64 n then
    Action.raise .overflow "cannot fit 'int' into an index-sized integer"
  else if items.isEmpty then pure []
  else if items.length * n.toNat < Formatted.maxWidth then
    pure (List.replicate n.toNat items).flatten
  else Action.raise .memory ""

/-- The characters of a text repeated; their number has to be a machine word. -/
def repeatedText (text : List Char) (n : Int) : Action (List Char) :=
  if Word.holds 64 n && decide ((Word.bound 64 : Int) ≤ text.length * n) then
    Action.raise .overflow "repeated string is too long"
  else repeated text n

/-- A sequence repeated, if the value is a sequence. -/
def repeat? (v : Value) (n : Int) : Action (Option Value) := do
  match v with
  | .str s => return some (.str (String.ofList (← repeatedText s.toList n)))
  | .tuple items => return some (.tuple (← repeated items n))
  | _ =>
    match ← Object.list? v with
    | some items => return some (← Object.newList (← repeated items n))
    | none => return none

/-- True of a sequence that can be repeated. -/
def isRepeatable : Value → Action Bool
  | .str _ => pure true
  | .tuple _ => pure true
  | v => do return (← Object.list? v).isSome

/-- Two values multiplied, at least one of them no number. -/
def times (sign : String) (a b : Value) : Action Value := do
  let byTimes (v n : Value) : Action Value := do
    match n.int? with
    | some n =>
      match ← repeat? v n with
      | some w => return w
      | none => failOperands sign a b
    | none => Object.failType n fun t => "can't multiply sequence by non-int of type " ++ t
  if ← isRepeatable a then byTimes a b
  else if ← isRepeatable b then byTimes b a
  else failOperands sign a b

/-- Two values joined, at least one of them no number. -/
def join (sign : String) (a b : Value) : Action Value := do
  match a, b with
  | .str s, .str t => return .str (s ++ t)
  | .str _, _ => failJoin a b
  | .tuple as, .tuple bs => return .tuple (as ++ bs)
  | .tuple _, _ => failJoin a b
  | _, _ =>
    match ← Object.list? a, ← Object.list? b with
    | some as, some bs => Object.newList (as ++ bs)
    | some _, none => failJoin a b
    | _, _ => failOperands sign a b

/-- The classes that a value stands for in a union. -/
def classes? : Value → Option (List (Option Class))
  | .none => some [none]
  | .cls c => some [some c]
  | .union classes => some classes
  | _ => none

/-- The union of classes, if the values stand for classes and one of them is more than `none`. -/
def union? (a b : Value) : Option Value :=
  match a, b, classes? a, classes? b with
  | .none, .none, _, _ => none
  | _, _, some as, some bs =>
    match (as ++ bs).eraseDups with
    | [some c] => some (.cls c)
    | classes => some (.union classes)
  | _, _, _, _ => none

/-- Two dictionaries merged, entries of the second replacing those of the first, or the union of
classes. -/
def merge (sign : String) (a b : Value) : Action Value := do
  match union? a b, ← Object.dict? a, ← Object.dict? b with
  | some u, _, _ => return u
  | none, some as, some bs => Object.newDict (Compare.insertAll bs as)
  | none, _, _ => failOperands sign a b

/-- An operator on two values, not both numbers it is defined for. -/
def other (self : Interp) (op : BinaryOp) (sign : String) (a b : Value) : Action Value :=
  match op, a with
  | .add, _ => join sign a b
  | .mul, _ => times sign a b
  | .bitOr, _ => merge sign a b
  | .mod, .str s => do return .str (← Percent.fill self s b)
  | _, _ => failOperands sign a b

/-- An operator between two values, `sign` being its name in messages. -/
def apply (self : Interp) (op : BinaryOp) (sign : String) (a b : Value) : Action Value :=
  match a, b, op with
  | .bool p, .bool q, .bitAnd => pure (.bool (p && q))
  | .bool p, .bool q, .bitOr => pure (.bool (p || q))
  | .bool p, .bool q, .bitXor => pure (.bool (p != q))
  | _, _, _ =>
    match a.number?, b.number? with
    | some m, some n => do
      match ← Action.ofExcept (m.apply op n) with
      | some r => r.toValue
      | none => failOperands sign a b
    | _, _ => other self op sign a b

/-- An operator between two values. -/
def binary (self : Interp) (op : BinaryOp) (a b : Value) : Action Value :=
  apply self op (signOf op false) a b

/-- True of what has items but is neither joined nor repeated. -/
def isView : Value → Bool
  | .range _ _ _ => true
  | .itemsView _ _ => true
  | _ => false

/-- An operator that assigns its result: lists and dictionaries on the left are changed, other
values replaced. -/
def update (self : Interp) (op : BinaryOp) (a b : Value) : Action Value := do
  let sign := signOf op true
  match op, ← Object.list? a, ← Object.dict? a with
  | .add, some _, _ =>
    match ← Iterate.iterator? b with
    | some it =>
      let _ ← self.collect it fun v => extend a [v]
      return a
    | none => extend a (← Iterate.items self b)
  | .mul, some items, _ =>
    match b.int? with
    | some n => change a (.list (← repeated items n))
    | none => Object.failType b fun t => "can't multiply sequence by non-int of type " ++ t
  | .mul, _, some _ => failOperands sign a b
  | .bitOr, _, some entries =>
    change a (.dict (Compare.insertAll (← Iterate.entriesOf self b) entries))
  | _, _, _ => if op = .mul && isView a then failOperands sign a b else apply self op sign a b
where
  /-- Puts items behind those that a list has by now. -/
  extend (v : Value) (more : List Value) : Action Value := do
    change v (.list ((← Object.list? v).getD [] ++ more))
  /-- Changes an object and answers it. -/
  change (v : Value) (c : Cell) : Action Value := do
    match v with
    | .object id =>
      Action.put id c
      return v
    | _ => return v

/-- An operator before a value. -/
def unary (op : UnaryOp) (v : Value) : Action Value :=
  let unsuitable (sign : String) : Action Value :=
    Object.failType v fun t => "bad operand type for unary " ++ sign ++ ": " ++ t
  match op, v.number? with
  | .not, _ => do return .bool (!(← Compare.truth v))
  | .plus, some (.int n) => pure (.int n)
  | .plus, some _ => pure v
  | .plus, none => unsuitable "+"
  | .minus, some (.int n) => pure (.int (-n))
  | .minus, some (.float x) => Object.newFloat (-x)
  | .minus, some (.complex z) => Object.newComplex z.neg
  | .minus, none => unsuitable "-"
  | .invert, some (.int n) => pure (.int (-n - 1))
  | .invert, _ => unsuitable "~"

/-- A comparison of two values. -/
def compare (self : Interp) (op : CompareOp) (a b : Value) : Action Bool :=
  match op with
  | .eq => self.equal a b
  | .ne => do return !(← self.equal a b)
  | .same => pure (Object.same a b)
  | .notSame => pure (!Object.same a b)
  | .member => isMember
  | .notMember => do return !(← isMember)
  | _ => self.order op a b
where
  /-- Whether the first value is among those that the second one holds. -/
  isMember : Action Bool := do
    match ← Compare.member? self a b with
    | some r => return r
    | none =>
      let type ← Object.quotedType b
      let it ← Iterate.iterOr b ("argument of type " ++ type ++ " is not iterable")
      self.seek it fun v => Compare.alike self v a

end MarkupTemplate.Host.Operate
