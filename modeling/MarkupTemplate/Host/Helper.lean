import MarkupTemplate.Escape
import MarkupTemplate.Host.Item
import MarkupTemplate.Host.Parameters

/-!
# Helpers for markup

The functions that every fragment sees besides those of the host language.

* `Helper.escape`: the text of a value, escaped as in an attribute.
* `Helper.joined`: the items of a value, laid out by a spec and joined.
-/

namespace MarkupTemplate.Host.Helper

/-- The text of a value, escaped as in an attribute. -/
def escape (self : Interp) (v : Value) : Action Value := do
  return .str (String.ofList (Escape.escapeAttribute (← Display.plain self v).toList))

/-- A value laid out by a spec that is a value, too. -/
def formatted (self : Interp) (spec v : Value) : Action Value := do
  match spec with
  | .str spec => return .str (← Display.format self spec v)
  | _ => do
    Action.raise .type ("format() argument 2 must be str, not " ++ (← Object.typeName spec))

/-- The texts among some values. -/
def textsOf (vs : List Value) : List String :=
  vs.filterMap fun
    | .str s => some s
    | _ => none

/-- The items of a value, laid out by a spec and joined. -/
def joined (self : Interp) (sep items spec : Value) : Action Value := do
  let method ← Item.member sep Method.join.name
  let it ← Iterate.iter items
  let texts ← (self.collect it (formatted self spec)).mapFailure Failure.leavingGenerator
  match method with
  | .method (.str sep) _ => return .str (sep.intercalate (textsOf texts))
  | _ => return .none

/-- A call of a helper. -/
def apply (self : Interp) (f : Function) (args : Arguments) : Action Value := do
  let spec : Bindings := [("spec", .str "")]
  match f with
  | .escape =>
    let (vs, _) ← Parameters.assign ⟨f.name, ["value"], [], false, false⟩ args
    escape self (vs.headD .none)
  | .join =>
    let (vs, _) ← Parameters.assign ⟨f.name, ["sep", "items"], spec, false, false⟩ args
    joined self (vs.getD 0 .none) (vs.getD 1 .none) (vs.getD 2 .none)
  | _ =>
    let (vs, _) ← Parameters.assign ⟨f.name, ["items"], spec, false, false⟩ args
    joined self (.str (if f = .csv then "," else " ")) (vs.getD 0 .none) (vs.getD 1 .none)

end MarkupTemplate.Host.Helper
