import MarkupTemplate.Formatted
import MarkupTemplate.Host.Interp
import MarkupTemplate.Text.Quoted

/-!
# Values as text

The text that shows a value, the plain text of a value, and the text that a format spec asks for.

* `Display.shown`: a value as shown among others; a value inside itself is shown by dots.
* `Display.plain`: a text as it is, any other value as it is shown.
* `Display.format`: a value laid out by a spec.
-/

namespace MarkupTemplate.Host.Display

/-- The outcome of laying a value out. -/
def ofFormatted {α : Type} (r : Except FormatFault α) : Action α :=
  match r with
  | .ok s => pure s
  | .error f => Action.fail f.toFailure

/-- Texts with commas between them. -/
def commas (texts : List String) : String := ", ".intercalate texts

/-- A pair of values, as an entry of a dictionary is shown. -/
def entry (self : Interp) (inside : List Value) (e : Value × Value) : Action String := do
  let key ← self.display inside e.1
  let value ← self.display inside e.2
  return key ++ ": " ++ value

/-- A field of a record. -/
def field (self : Interp) (inside : List Value) (fields : Bindings) (name : String) :
    Action String := do
  let v := (fields.get? name).getD .none
  return name ++ "=" ++ (← self.display inside v)

/-- True of a value that is among those it is shown inside of. -/
def isNested (inside : List Value) (v : Value) : Bool := inside.any (Object.same v)

/-- An object as shown inside the given values. -/
def object (self : Interp) (inside : List Value) (id : Nat) (c : Cell) : Action String := do
  let nested := isNested inside (.object id)
  let inside := .object id :: inside
  match c with
  | .list items =>
    if nested then return "[...]"
    else return "[" ++ commas (← items.mapM (self.display inside)) ++ "]"
  | .dict entries =>
    if nested then return "\x7b...\x7d"
    else return "\x7b" ++ commas (← entries.mapM (entry self inside)) ++ "\x7d"
  | .record cls fields =>
    if nested then return "..."
    else return cls.name ++ "(" ++ commas (← cls.fields.mapM (field self inside fields)) ++ ")"
  | _ => return "<" ++ c.typeName ++ " object>"

/-- A tuple that has items as shown inside the given values. -/
def tuple (self : Interp) (inside : List Value) (items : List Value) : Action String := do
  if isNested inside (.tuple items) then return "(...)"
  else
    let texts ← items.mapM (self.display (.tuple items :: inside))
    return "(" ++ commas texts ++ (if items.length = 1 then ",)" else ")")

/-- The items of a dictionary as shown inside the given values. -/
def itemsView (self : Interp) (inside : List Value) (dict mark : Nat) : Action String := do
  let v := Value.itemsView dict mark
  if isNested inside v then return "..."
  else
    let entries := (← Object.dict? (.object dict)).getD []
    let pairs ← entries.mapM fun (key, w) => do
      return "(" ++ commas (← [key, w].mapM (self.display (v :: inside))) ++ ")"
    return "dict_items([" ++ commas pairs ++ "])"

/-- The name that shows a class. -/
def className : Class → String
  | .builtin c => c.name
  | .record c => "__main__." ++ c.name

/-- The text that shows a value inside the given values. -/
def shown (self : Interp) (inside : List Value) : Value → Action String
  | .none => pure "None"
  | .ellipsis => pure "Ellipsis"
  | .bool b => pure (if b then "True" else "False")
  | .int n => ofFormatted (Formatted.decimalText n)
  | .float x _ => pure (Decimal.ofFloat x)
  | .complex z _ => pure z.text
  | .str s => pure (Text.quote s)
  | .tuple [] => pure "()"
  | .tuple items => tuple self inside items
  | .range start stop step => do
    let bounds ← [start, stop].mapM fun n => self.display inside (.int n)
    let step ← if step = 1 then pure [] else [step].mapM fun n => self.display inside (.int n)
    return "range(" ++ commas (bounds ++ step) ++ ")"
  | .slice a b c => do return "slice(" ++ commas (← [a, b, c].mapM (self.display inside)) ++ ")"
  | .object id => do
    match ← Action.cell? id with
    | some c => object self inside id c
    | none => return "<object>"
  | .itemsView d mark => itemsView self inside d mark
  | .cls c => pure ("<class '" ++ className c ++ "'>")
  | .union classes => pure (" | ".intercalate (classes.map fun c => (c.map className).getD "None"))
  | .function f =>
    pure ((if Function.helpers.contains f then "<function " else "<built-in function ")
      ++ f.name ++ ">")
  | .unbound c m => pure ("<method '" ++ m.name ++ "' of '" ++ c.name ++ "' objects>")
  | v => do return "<" ++ (← Object.typeName v) ++ " object>"

/-- A value as shown on its own. -/
def whole (self : Interp) (v : Value) : Action String := self.display [] v

/-- The plain text of a value. -/
def plain (self : Interp) : Value → Action String
  | .str s => pure s
  | .hooked _ _ .text failure => Action.fail failure
  | v => whole self v

/-- The text that shows a value, with every character beyond ASCII escaped. -/
def ascii (self : Interp) (v : Value) : Action String := do
  return String.ofList (Text.escapeBeyondAscii (← whole self v).toList)

/-- A value laid out by the text of a spec. -/
def format (self : Interp) (spec : String) : Value → Action String
  | .str s => ofFormatted (Formatted.text spec.toList s)
  | .int n =>
    ofFormatted
      (if spec.isEmpty then Formatted.decimalText n else Formatted.int "int" spec.toList n)
  | .bool b =>
    if spec.isEmpty then pure (if b then "True" else "False")
    else ofFormatted (Formatted.int "bool" spec.toList (if b then 1 else 0))
  | .float x _ => ofFormatted (Formatted.float spec.toList x)
  | .complex z _ => ofFormatted (Formatted.complex spec.toList z)
  | .hooked _ _ .format failure => Action.fail failure
  | v =>
    if spec.isEmpty then plain self v
    else do Action.fail (FormatFault.unsupported (← Object.typeName v)).toFailure

end MarkupTemplate.Host.Display
