import MarkupTemplate.Host.Display
import MarkupTemplate.Host.Iterate

/-!
# Items and members

The items of sequences and dictionaries, slices of sequences, and the members of values: reading
them and, where a value can change, setting them.

* `Item.get`, `Item.set`: an item.
* `Item.member`, `Item.setMember`: a member.
* `Item.memberOfClass`: a member of a class, such as a method that is bound to no value.
* `Item.slots`: the places that a slice selects.
-/

namespace MarkupTemplate.Host.Item

/-- The place that an index stands for in a sequence of the given length. -/
def place? (length : Nat) (index : Int) : Option Nat :=
  let i := if index < 0 then index + length else index
  if 0 ≤ i ∧ i < length then some i.toNat else none

/-- Fails when an index is no machine word. -/
def checkIndex (index : Int) : Action Unit :=
  if Word.holds 64 index then pure ()
  else Action.raise .index "cannot fit 'int' into an index-sized integer"

/-! ## Slices -/

/-- The number that bounds a slice, if one is given. -/
def bound? : Value → Action (Option Int)
  | .none => pure none
  | v =>
    match v.int? with
    | some n => pure (some n)
    | none =>
      Action.raise .type "slice indices must be integers or None or have an __index__ method"

/-- A bound counted from the front and kept between two limits. -/
def clamp (length : Nat) (low high : Int) (n : Int) : Int :=
  let n := if n < 0 then n + length else n
  if n < low then low else if high < n then high else n

/-- The places from `start` on in steps, `count` of them. -/
def steps (start step : Int) : Nat → List Nat
  | 0 => []
  | n + 1 => start.toNat :: steps (start + step) step n

/-- The places between two numbers in steps. -/
def placesIn (start stop step : Int) : List Nat :=
  steps start step (Object.rangeLength start stop step)

/-- The places that a slice selects: from the first number on and short of the second, in steps of
the third. A slice without places stands at the first number. -/
def slots (length : Nat) (start stop step : Value) : Action (Int × Int × Int) := do
  let step := (← bound? step).getD 1
  if step = 0 then Action.raise .value "slice step cannot be zero"
  else
    let start ← bound? start
    let stop ← bound? stop
    if 0 < step then
      let a := (start.map (clamp length 0 length)).getD 0
      let b := (stop.map (clamp length 0 length)).getD length
      return (a, b, step)
    else
      let last : Int := (length : Int) - 1
      let a := (start.map (clamp length (-1) last)).getD last
      let b := (stop.map (clamp length (-1) last)).getD (-1)
      return (a, b, step)

/-- The items at some places. -/
def atPlaces {α : Type} (items : List α) (places : List Nat) : List α :=
  let items := items.toArray
  places.filterMap fun i => items[i]?

/-! ## Reading items -/

/-- The item of a sequence, or its items at a slice. -/
def ofSequence {α : Type} (items : List α) (index : Value) (one : α → Action Value)
    (several : List α → Action Value) (outOfRange : String) (unsuitable : Action Value) :
    Action Value := do
  match index, index.int? with
  | .slice a b c, _ =>
    let (start, stop, step) ← slots items.length a b c
    several (atPlaces items (placesIn start stop step))
  | _, some n =>
    checkIndex n
    match (place? items.length n).bind fun i => items[i]? with
    | some a => one a
    | none => Action.raise .index outOfRange
  | _, none => unsuitable

/-- Fails because an index is of an unsuitable type. -/
def failIndex {α : Type} (sequence : String) (index : Value) : Action α := do
  Action.raise .type (sequence ++ " indices must be integers or slices, not "
    ++ (← Object.typeName index))

/-- A part of a range, or a number of it. -/
def ofRange (start stop step : Int) (index : Value) : Action Value := do
  let length := Object.rangeLength start stop step
  match index, index.int? with
  | .slice a b c, _ =>
    let (first, last, stride) ← slots length a b c
    return .range (start + first * step) (start + last * step) (step * stride)
  | _, some n =>
    match place? length n with
    | some i => return .int (start + i * step)
    | none => Action.raise .index "range object index out of range"
  | _, none => failIndex "range" index

/-- The item of a value. -/
def get (self : Interp) (v index : Value) : Action Value :=
  match v with
  | .str s =>
    ofSequence s.toList index (fun c => pure (.str c.toString))
      (fun cs => pure (.str (String.ofList cs))) "string index out of range"
      (Object.failType index fun t => "string indices must be integers, not " ++ t)
  | .tuple items =>
    ofSequence items index pure (fun vs => pure (.tuple vs)) "tuple index out of range"
      (failIndex "tuple" index)
  | .range a b c => ofRange a b c index
  | .object id => do
    match ← Action.cell? id with
    | some (.list items) =>
      ofSequence items index pure Object.newList "list index out of range" (failIndex "list" index)
    | some (.dict entries) =>
      Compare.checkKey index
      match Compare.find? index entries with
      | some w => return w
      | none => Action.raise .key (← Display.whole self index)
    | _ => unsubscriptable
  | .cls c => Action.raise .type ("type '" ++ c.name ++ "' is not subscriptable")
  | _ => unsubscriptable
where
  /-- Fails because the value has no items. -/
  unsubscriptable : Action Value :=
    Object.failType v fun t => t ++ " object is not subscriptable"

/-! ## Setting items -/

/-- Sets the items of a list at a slice. -/
def setSlice (self : Interp) (id : Nat) (items : List Value) (start stop step v : Value) :
    Action Unit := do
  let (first, last, stride) ← slots items.length start stop step
  let it ← Iterate.iterOr v (if stride = 1 then "can only assign an iterable"
    else "must assign iterable to extended slice")
  let new ← self.collect it pure
  let places := placesIn first last stride
  if stride = 1 then
    let after := items.drop (first.toNat + places.length)
    Action.put id (.list (items.take first.toNat ++ new ++ after))
  else if new.length = places.length then
    Action.put id (.list ((places.zip new).foldl (fun items (i, w) => items.set i w) items))
  else
    Action.raise .value ("attempt to assign sequence of size " ++ toString new.length
      ++ " to extended slice of size " ++ toString places.length)

/-- Sets the item of a value. -/
def set (self : Interp) (target index v : Value) : Action Unit :=
  match target with
  | .object id => do
    match ← Action.cell? id with
    | some (.list items) =>
      match index, index.int? with
      | .slice a b c, _ => setSlice self id items a b c v
      | _, some n =>
        checkIndex n
        match place? items.length n with
        | some i => Action.put id (.list (items.set i v))
        | none => Action.raise .index "list assignment index out of range"
      | _, none => failIndex "list" index
    | some (.dict entries) =>
      Compare.checkKey index
      Action.put id (.dict (Compare.insert index v entries))
    | _ => unsettable
  | _ => unsettable
where
  /-- Fails because the items of the value cannot be set. -/
  unsettable : Action Unit :=
    Object.failType target fun t => t ++ " object does not support item assignment"

/-! ## Members -/

/-- The methods of a value. -/
def methods : Value → Action (List Method)
  | .str _ => pure Method.ofText
  | .writer _ => pure [.write]
  | .object id => do
    match ← Action.cell? id with
    | some (.list _) => return Method.ofList
    | some (.dict _) => return Method.ofDict
    | _ => return []
  | _ => pure []

/-- Fails because a value has no such member. -/
def failMember {α : Type} (v : Value) (name : String) : Action α := do
  let owner ← match v with
    | .cls c => pure ("type object '" ++ c.name ++ "'")
    | _ => do pure ((← Object.quotedType v) ++ " object")
  Action.raise .attr (owner ++ " has no attribute '" ++ name ++ "'")

/-- The member of a class. -/
def memberOfClass (c : Class) (name : String) : Action Value :=
  match c with
  | .builtin b =>
    match (Method.ofClass b).find? (·.name == name) with
    | some m => pure (.unbound b m)
    | none => failMember (.cls c) name
  | .record _ => failMember (.cls c) name

/-- The member of a value. -/
def member (v : Value) (name : String) : Action Value := do
  match v, (← methods v).find? (·.name == name) with
  | .cls c, _ => memberOfClass c name
  | _, some m => return .method v m
  | _, none =>
    match (← Object.record? v).bind fun r => r.2.get? name with
    | some w => return w
    | none => failMember (functionOf v) name
where
  /-- The function behind a method, which has the members of the method. -/
  functionOf : Value → Value
    | .method (.writer _) _ => .constant 0 .none
    | v => v

/-- Sets the member of a value. -/
def setMember (target : Value) (name : String) (v : Value) : Action Unit := do
  match target, ← Object.record? target with
  | .object id, some (c, fields) =>
    Action.put id (.record c ((name, v) :: fields.filter (·.1 != name)))
  | _, _ =>
    if (← methods target).any (·.name == name) then
      Action.raise .attr ((← Object.quotedType target) ++ " object attribute '" ++ name
        ++ "' is read-only")
    else failMember target name

end MarkupTemplate.Host.Item
