import MarkupTemplate.Host.Builtin
import MarkupTemplate.Host.Helper

/-!
# Calls

What happens when a value is called: functions and classes compute, methods work on the value they
belong to, and functions supplied from outside answer or fail as they were made to.

* `Call.apply`: a call of a value.
-/

namespace MarkupTemplate.Host.Call

/-- A method of a list. -/
def ofList (id : Nat) (items : List Value) (m : Method) (args : Arguments) : Action Value := do
  match m with
  | .append =>
    let v ← args.one "list.append"
    Action.put id (.list (items ++ [v]))
    return .none
  | _ =>
    args.withoutNames "list.pop"
    let vs ← args.between "pop" 0 1
    let index ← TextMethod.sizeArgument (vs.headD (.int (-1)))
    if items.isEmpty then Action.raise .index "pop from empty list"
    else
      match Item.place? items.length index with
      | some i =>
        Action.put id (.list (items.eraseIdx i))
        return items.getD i .none
      | none => Action.raise .index "pop index out of range"

/-- A method of a dictionary. -/
def ofDict (id : Nat) (entries : List (Value × Value)) (m : Method) (args : Arguments) :
    Action Value := do
  match m with
  | .items =>
    args.none "dict.items"
    return .itemsView id (← Action.newMark)
  | _ =>
    args.withoutNames "dict.get"
    let vs ← args.between "get" 1 2
    let key := vs.headD .none
    Compare.checkKey key
    return (Compare.find? key entries).getD (vs.getD 1 .none)

/-- A call of a method. -/
def method (self : Interp) (v : Value) (m : Method) (args : Arguments) : Action Value := do
  match v with
  | .str s => TextMethod.apply self s.toList m args
  | .writer sink =>
    let (vs, _) ← Parameters.assign ⟨"Writer.write", ["text"], [], false, true⟩ args
    Action.write sink (← Display.plain self (vs.headD .none))
    return .none
  | .object id =>
    match ← Action.cell? id with
    | some (.list items) => ofList id items m args
    | some (.dict entries) => ofDict id entries m args
    | _ => return .none
  | _ => return .none

/-- A call of a method of a class, whose first argument is the value that it works on. -/
def unbound (self : Interp) (c : BuiltinClass) (m : Method) (args : Arguments) :
    Action Value := do
  match args.positional with
  | [] =>
    Action.raise .type ("unbound method " ++ c.name ++ "." ++ m.name ++ "() needs an argument")
  | v :: rest =>
    if ← Builtin.belongs v (.builtin c) then method self v m ⟨rest, args.named⟩
    else
      Object.failType v fun t =>
        "descriptor '" ++ m.name ++ "' for '" ++ c.name ++ "' objects doesn't apply to a " ++ t
          ++ " object"

/-- A new record. -/
def record (c : RecordClass) (args : Arguments) : Action Value := do
  let (vs, _) ← Parameters.assign ⟨c.name ++ ".__init__", c.fields, [], false, true⟩ args
  Object.newRecord c vs

/-- The variables that the entries of a dictionary make up; what counts as false has none. -/
def scopeOf (self : Interp) (v : Value) : Action Bindings := do
  if ← Compare.truth v then
    return (← Iterate.entriesOf self v).reverse.filterMap fun
      | (.str name, w) => some (name, w)
      | _ => none
  else return []

/-- The text of a template that a value stands for: a text, or a value that has no items. -/
def sourceOf (self : Interp) (v : Value) : Action String := do
  Compare.checkKey v
  match v with
  | .str source => return source
  | _ =>
    let _ ← Builtin.length v
    if ← Compare.truth v then Item.failMember (← Item.get self v (.int 0)) "isspace"
    else return ""

/-- Renders a template from within a fragment. -/
def render (self : Interp) (args : Arguments) : Action Value := do
  let p : Parameters := ⟨"render", ["source"], [("variables", .none)], true, false⟩
  let (vs, named) ← p.assign args
  let source ← sourceOf self (vs.headD .none)
  return .str (← self.render source (scopeOf self (vs.getD 1 .none)) named)

/-- A call of a value. -/
def apply (self : Interp) (v : Value) (args : Arguments) : Action Value :=
  match v with
  | .function f =>
    if Function.helpers.contains f then Helper.apply self f args else Builtin.apply self f args
  | .method v m => method self v m args
  | .unbound c m => unbound self c m args
  | .cls (.builtin c) => Builtin.construct self c args
  | .cls (.record c) => record c args
  | .constant _ result => pure result
  | .failing _ failure => Action.fail failure
  | .renderer => render self args
  | _ => Object.failType v fun t => t ++ " object is not callable"

end MarkupTemplate.Host.Call
