import MarkupTemplate.Host.Interp
import MarkupTemplate.Host.Number

/-!
# Truth, equality and order

When values count as true, when they are equal, how they are ordered, and how the entries of a
dictionary are found.

* `Compare.truth`: whether a value counts as true.
* `Compare.equal`, `Compare.order`: one step of comparing two values.
* `Compare.find?`: the entry of a key.
-/

namespace MarkupTemplate.Host.Compare

/-- Whether a value counts as true. -/
def truth : Value → Action Bool
  | .none => pure false
  | .bool b => pure b
  | .int n => pure (n != 0)
  | .float x _ => pure (x != 0.0)
  | .complex z _ => pure (z.re != 0.0 || z.im != 0.0)
  | .str s => pure (!s.isEmpty)
  | .tuple items => pure (!items.isEmpty)
  | .range start stop step => pure (Object.rangeLength start stop step != 0)
  | .object id => do
    match ← Action.cell? id with
    | some (.list items) => return !items.isEmpty
    | some (.dict entries) => return !entries.isEmpty
    | _ => return true
  | .itemsView d _ => do return !((← Object.dict? (.object d)).getD []).isEmpty
  | .hooked _ _ .truth failure => Action.fail failure
  | _ => pure true

/-! ## Keys -/

/-- Fails for a value that cannot be a key. -/
def checkKey : Value → Action Unit
  | .tuple [] => pure ()
  | .tuple (v :: rest) => do
    checkKey v
    checkKey (.tuple rest)
  | .slice a b c => Object.failType (.slice a b c) fun t => "unhashable type: " ++ t
  | .itemsView d m => Object.failType (.itemsView d m) fun t => "unhashable type: " ++ t
  | .object id => do
    match ← Action.cell? id with
    | some (.iterator _) => return ()
    | _ => Object.failType (.object id) fun t => "unhashable type: " ++ t
  | _ => pure ()

/-- Two values that are the same key. -/
def sameKey : Value → Value → Bool
  | .tuple [], .tuple [] => true
  | .tuple (a :: as), .tuple (b :: bs) => sameKey a b && sameKey (.tuple as) (.tuple bs)
  | a, b =>
    Object.same a b || match a.number?, b.number? with
      | some m, some n => m.isEqual n
      | _, _ => false

/-- The value of a key among entries. -/
def find? (key : Value) (entries : List (Value × Value)) : Option Value :=
  (entries.find? fun e => sameKey e.1 key).map (·.2)

/-- Entries with the value of a key replaced, or with a further entry. -/
def insert (key value : Value) : List (Value × Value) → List (Value × Value)
  | [] => [(key, value)]
  | (k, v) :: rest =>
    if sameKey k key then (k, value) :: rest else (k, v) :: insert key value rest

/-- Entries with further ones. -/
def insertAll (new old : List (Value × Value)) : List (Value × Value) :=
  new.foldl (fun entries e => insert e.1 e.2 entries) old

/-! ## Equality -/

/-- Whether two values are the same or equal. -/
def alike (self : Interp) (a b : Value) : Action Bool :=
  if Object.same a b then pure true else self.equal a b

/-- Whether two sequences have as many items, each like its counterpart. -/
def allAlike (self : Interp) : List Value → List Value → Action Bool
  | [], [] => pure true
  | a :: as, b :: bs => do
    if ← alike self a b then allAlike self as bs else return false
  | _, _ => pure false

/-- Whether every entry has a counterpart among others. -/
def allFound (self : Interp) (others : List (Value × Value)) : List (Value × Value) → Action Bool
  | [] => pure true
  | (k, v) :: rest =>
    match find? k others with
    | some w => do
      if ← alike self v w then allFound self others rest else return false
    | none => pure false

/-- Whether two objects are equal. -/
def equalCells (self : Interp) : Cell → Cell → Action Bool
  | .list as, .list bs => if as.length = bs.length then allAlike self as bs else pure false
  | .dict as, .dict bs => if as.length = bs.length then allFound self bs as else pure false
  | .record c fs, .record d gs =>
    if c = d then
      allAlike self (c.fields.filterMap fs.get?) (d.fields.filterMap gs.get?)
    else pure false
  | _, _ => pure false

/-- Whether two values are equal. -/
def equal (self : Interp) (a b : Value) : Action Bool :=
  match a.number?, b.number? with
  | some m, some n => pure (m.isEqual n)
  | _, _ =>
    match a, b with
    | .tuple as, .tuple bs => allAlike self as bs
    | .range s t u, .range x y z =>
      let m := Object.rangeLength s t u
      let n := Object.rangeLength x y z
      pure (m == n && (m == 0 || s == x && (m == 1 || u == z)))
    | .itemsView d _, .itemsView e _ => do
      match ← Object.dict? (.object d), ← Object.dict? (.object e) with
      | some as, some bs => if as.length = bs.length then allFound self bs as else return false
      | _, _ => return false
    | .union as, .union bs => pure (as.all bs.contains && bs.all as.contains)
    | .object i, .object j => do
      if i = j then return true
      match ← Action.cell? i, ← Action.cell? j with
      | some c, some d => equalCells self c d
      | _, _ => return false
    | _, _ => pure (Object.same a b)

/-! ## Order -/

/-- The sign of a comparison. -/
def sign : CompareOp → String
  | .eq => "=="
  | .ne => "!="
  | .lt => "<"
  | .le => "<="
  | .gt => ">"
  | .ge => ">="
  | .same => "is"
  | .notSame => "is not"
  | .member => "in"
  | .notMember => "not in"

/-- Whether an order is one that a comparison asks for. -/
def allows : CompareOp → Ordering → Bool
  | .eq, o => o == .eq
  | .ne, o => o != .eq
  | .lt, o => o == .lt
  | .le, o => o != .gt
  | .gt, o => o == .gt
  | .ge, o => o != .lt
  | _, _ => false

/-- Compares the first items that differ, or else the lengths. -/
def orderItems (self : Interp) (op : CompareOp) : List Value → List Value → Action Bool
  | a :: as, b :: bs => do
    if ← alike self a b then orderItems self op as bs else self.order op a b
  | as, bs => pure (allows op (compare as.length bs.length))

/-- Fails because two values have no order. -/
def failOrder {α : Type} (op : CompareOp) (a b : Value) : Action α := do
  let left ← Object.quotedType a
  let right ← Object.quotedType b
  Action.raise .type ("'" ++ sign op ++ "' not supported between instances of " ++ left ++ " and "
    ++ right)

/-- Compares entries of dictionaries as sets: the smaller ones are all among the greater ones. -/
def orderEntries (self : Interp) (op : CompareOp) (as bs : List (Value × Value)) : Action Bool :=
  let (smaller, greater) := if op = .lt ∨ op = .le then (as, bs) else (bs, as)
  if allows (if op = .lt ∨ op = .gt then .lt else .le) (compare smaller.length greater.length) then
    allFound self greater smaller
  else pure false

/-- Whether an order holds between two values. -/
def order (self : Interp) (op : CompareOp) (a b : Value) : Action Bool :=
  match a.real?, b.real? with
  | some m, some n => pure ((m.compare? n).any (allows op))
  | _, _ =>
    match a, b with
    | .str s, .str t => pure (allows op (compareOfLessAndEq s t))
    | .tuple as, .tuple bs => orderItems self op as bs
    | .itemsView d _, .itemsView e _ => do
      match ← Object.dict? (.object d), ← Object.dict? (.object e) with
      | some as, some bs => orderEntries self op as bs
      | _, _ => failOrder op a b
    | _, _ => do
      match ← Object.list? a, ← Object.list? b with
      | some as, some bs => orderItems self op as bs
      | _, _ => failOrder op a b

/-! ## Membership -/

/-- True when `pat` occurs in a text. -/
def occursIn (pat s : String) : Bool := (Text.findFrom pat.toList 0 s.toList).isSome

/-- Whether some item is like a value. -/
def anyAlike (self : Interp) (v : Value) : List Value → Action Bool
  | [] => pure false
  | a :: rest => do
    if ← alike self a v then return true else anyAlike self v rest

/-- Whether a value is among those that a container holds, if it is a container. -/
def member? (self : Interp) (v container : Value) : Action (Option Bool) :=
  match container with
  | .str s =>
    match v with
    | .str pat => pure (some (occursIn pat s))
    | _ => do
      Action.raise .type ("'in <string>' requires string as left operand, not "
        ++ (← Object.typeName v))
  | .tuple items => do return some (← anyAlike self v items)
  | .range start stop step =>
    match v.int? with
    | some n =>
      let inside := if 0 < step then start ≤ n && n < stop else stop < n && n ≤ start
      pure (some (inside && (n - start).fmod step == 0))
    | none => do
      return some (← anyAlike self v
        (Object.rangeItems start step (Object.rangeLength start stop step)))
  | .object id => do
    match ← Action.cell? id with
    | some (.list items) => return some (← anyAlike self v items)
    | some (.dict entries) =>
      checkKey v
      return some (find? v entries).isSome
    | _ => return none
  | .itemsView d _ => do
    match v with
    | .tuple [k, w] =>
      checkKey k
      return some (← allFound self ((← Object.dict? (.object d)).getD []) [(k, w)])
    | _ => return some false
  | _ => pure none

end MarkupTemplate.Host.Compare
