import MarkupTemplate.Host.Object
import MarkupTemplate.Json

/-!
# JSON values for templates

The host value of a JSON value: arrays become lists, objects become dictionaries in the order of
their members.

* `Json.toValue`: the host value; what is no number has one mark wherever it stands.
-/

namespace MarkupTemplate.Json

open Host

mutual

/-- The host value of a JSON value. -/
def toValue : Json → Action Value
  | .null => pure .none
  | .bool b => pure (.bool b)
  | .int n => pure (.int n)
  | .float x => pure (.float x 0)
  | .str s => pure (.str s)
  | .arr items => do Object.newList (← toValues items)
  | .obj members => do Object.newDict (← toEntries members)

/-- The host values of JSON values. -/
def toValues : List Json → Action (List Value)
  | [] => pure []
  | j :: rest => do
    let v ← toValue j
    return v :: (← toValues rest)

/-- The entries of a dictionary with the given members. -/
def toEntries : List (String × Json) → Action (List (Value × Value))
  | [] => pure []
  | (name, j) :: rest => do
    let v ← toValue j
    return (.str name, v) :: (← toEntries rest)

end

end MarkupTemplate.Json
