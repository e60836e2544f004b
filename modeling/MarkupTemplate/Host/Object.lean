import MarkupTemplate.Action

/-!
# Objects

Making objects, looking at them, and the names of the types of values.

* `Object.typeName`: the name of a value's type.
* `Object.list?`, `Object.dict?`: the contents of a list or a dictionary.
* `Object.failType`: the failure of a value of an unsuitable type.
-/

namespace MarkupTemplate

namespace Supply

/-- The name of the type of an iterator. -/
def typeName : Supply → String
  | values kind _ => kind
  | list _ _ => "list_iterator"
  | backwards _ _ => "list_reverseiterator"
  | keys _ _ _ => "dict_keyiterator"
  | pairs _ _ _ => "dict_itemiterator"
  | keysBackwards _ _ _ => "dict_reversekeyiterator"
  | numbers _ _ _ => "range_iterator"
  | numbered _ _ => "enumerate"
  | joint _ _ => "zip"
  | scripted _ _ => "generator"
  | generator _ _ => "generator"
  | spent kind => kind

end Supply

namespace Cell

/-- The name of the type of an object. -/
def typeName : Cell → String
  | list _ => "list"
  | dict _ => "dict"
  | record c _ => c.name
  | iterator s => s.typeName
  | frame _ => "frame"

end Cell

namespace Object

/-- The name of a value's type. -/
def typeName : Value → Action String
  | .none => pure "NoneType"
  | .ellipsis => pure "ellipsis"
  | .bool _ => pure "bool"
  | .int _ => pure "int"
  | .float _ _ => pure "float"
  | .complex _ _ => pure "complex"
  | .str _ => pure "str"
  | .tuple _ => pure "tuple"
  | .range _ _ _ => pure "range"
  | .slice _ _ _ => pure "slice"
  | .object id => do
    match ← Action.cell? id with
    | some c => return c.typeName
    | none => return "object"
  | .itemsView _ _ => pure "dict_items"
  | .cls _ => pure "type"
  | .union _ => pure "types.UnionType"
  | .function f =>
    pure (if Function.helpers.contains f then "function" else "builtin_function_or_method")
  | .method _ .write => pure "method"
  | .method _ _ => pure "builtin_function_or_method"
  | .unbound _ _ => pure "method_descriptor"
  | .constant _ _ => pure "function"
  | .failing _ _ => pure "function"
  | .renderer => pure "function"
  | .hooked _ name _ _ => pure name
  | .writer _ => pure "Writer"

/-- The name of a value's type without that of the module it comes from. -/
def className : Value → Action String
  | .union _ => pure "UnionType"
  | v => typeName v

/-- The name of a value's type between quotes. -/
def quotedType (v : Value) : Action String := do
  return "'" ++ (← typeName v) ++ "'"

/-- Fails because of the type of a value, which `text` puts into words. -/
def failType {α : Type} (v : Value) (text : String → String) : Action α := do
  Action.raise .type (text (← quotedType v))

/-- A float; one that is no number gets a mark of its own. -/
def newFloat (x : Float) : Action Value := do
  return .float x (← if x.isNaN then Action.newMark else pure 0)

/-- A complex number; one that is no number gets a mark of its own. -/
def newComplex (z : Complex) : Action Value := do
  return .complex z (← if z.isUndefined then Action.newMark else pure 0)

/-- A new list. -/
def newList (items : List Value) : Action Value := do
  return .object (← Action.alloc (.list items))

/-- A new dictionary; no two of its keys are equal. -/
def newDict (entries : List (Value × Value)) : Action Value := do
  return .object (← Action.alloc (.dict entries))

/-- A new record. -/
def newRecord (cls : RecordClass) (values : List Value) : Action Value := do
  return .object (← Action.alloc (.record cls (cls.fields.zip values)))

/-- A new iterator. -/
def newIterator (s : Supply) : Action Nat := Action.alloc (.iterator s)

/-- The items of a list. -/
def list? : Value → Action (Option (List Value))
  | .object id => do
    match ← Action.cell? id with
    | some (.list items) => return some items
    | _ => return none
  | _ => pure none

/-- The entries of a dictionary. -/
def dict? : Value → Action (Option (List (Value × Value)))
  | .object id => do
    match ← Action.cell? id with
    | some (.dict entries) => return some entries
    | _ => return none
  | _ => pure none

/-- The class and the fields of a record. -/
def record? : Value → Action (Option (RecordClass × Bindings))
  | .object id => do
    match ← Action.cell? id with
    | some (.record c fields) => return some (c, fields)
    | _ => return none
  | _ => pure none

/-- The items of a value that is a fixed or growing sequence of values. -/
def sequence? (v : Value) : Action (Option (List Value)) :=
  match v with
  | .tuple items => pure (some items)
  | _ => list? v

/-- The numbers of a range, `count` of them. -/
def rangeItems (start step : Int) : Nat → List Value
  | 0 => []
  | n + 1 => .int start :: rangeItems (start + step) step n

/-- How many numbers a range holds. -/
def rangeLength (start stop step : Int) : Nat :=
  if 0 < step then ((stop - start + step - 1).fdiv step).toNat
  else ((start - stop - step - 1).fdiv (-step)).toNat

/-- The characters of a text as texts. -/
def characters (s : String) : List Value := s.toList.map fun c => .str c.toString

/-- Two values that are one and the same. -/
def same : Value → Value → Bool
  | .none, .none => true
  | .ellipsis, .ellipsis => true
  | .bool a, .bool b => a == b
  | .int a, .int b => a == b
  | .float a m, .float b n => a.toBits == b.toBits && m == n
  | .complex a m, .complex b n =>
    a.re.toBits == b.re.toBits && a.im.toBits == b.im.toBits && m == n
  | .str a, .str b => a == b
  | .tuple [], .tuple [] => true
  | .tuple (a :: as), .tuple (b :: bs) => same a b && same (.tuple as) (.tuple bs)
  | .range a b c, .range d e f => a == d && b == e && c == f
  | .object a, .object b => a == b
  | .itemsView a m, .itemsView b n => a == b && m == n
  | .cls a, .cls b => a == b
  | .union a, .union b => a == b
  | .function a, .function b => a == b
  | .method a m, .method b n => m == n && same a b
  | .unbound a m, .unbound b n => a == b && m == n
  | .constant m _, .constant n _ => m == n
  | .failing m _, .failing n _ => m == n
  | .renderer, .renderer => true
  | .hooked m _ _ _, .hooked n _ _ _ => m == n
  | .writer a, .writer b => a == b
  | _, _ => false

/-! ## Names -/

/-- The value of a name in a frame: `none` when the frame does not declare it. -/
def inFrame? (frame : Nat) (name : String) : Action (Option (Option Value)) := do
  match ← Action.cell? frame with
  | some (.frame names) => return (names.find? (·.1 == name)).map (·.2)
  | _ => return none

/-- Binds a name in a frame. -/
def setName (frame : Nat) (name : String) (v : Value) : Action Unit := do
  match ← Action.cell? frame with
  | some (.frame names) =>
    Action.put frame (.frame ((name, some v) :: names.filter (·.1 != name)))
  | _ => return ()

/-- A frame in which names are declared but not bound. -/
def newFrame (declared : List String) : Action Nat :=
  Action.alloc (.frame (declared.map fun name => (name, none)))

/-- A frame in which names are bound. -/
def frameOf (b : Bindings) : Action Nat :=
  Action.alloc (.frame (b.map fun (name, v) => (name, some v)))

/-- The constants: those that keywords stand for have these names too when a variant spelling of the
keyword gives them. -/
def constants : Bindings :=
  [("None", .none), ("True", .bool true), ("False", .bool false), ("Ellipsis", .ellipsis)]

/-- The names that every fragment sees: helpers, functions, classes and constants. -/
def base? (name : String) : Option Value :=
  match (Function.helpers ++ Function.hosted).find? (·.name == name),
    BuiltinClass.all.find? (·.name == name) with
  | some f, _ => some (.function f)
  | none, some c => some (.cls (.builtin c))
  | none, none => constants.get? name

/-- Looks a name up in frames, `own` telling whether the first one is that of the fragment
itself. -/
def lookUp (name : String) (own : Bool) : List Nat → Action Value
  | [] =>
    match base? name with
    | some v => pure v
    | none => Action.raise .undefined ("name '" ++ name ++ "' is not defined")
  | frame :: outer => do
    match ← inFrame? frame name with
    | some (some v) => return v
    | some none =>
      if own then
        Action.raise .unboundLocal ("cannot access local variable '" ++ name
          ++ "' where it is not associated with a value")
      else
        Action.raise .undefined ("cannot access free variable '" ++ name
          ++ "' where it is not associated with a value in enclosing scope")
    | none => lookUp name false outer

end Object

end MarkupTemplate
