import MarkupTemplate.FileSystem
import MarkupTemplate.Json.Value

/-!
# Variables from outside

The variables of a template come from the members of a JSON object in a file and from items
`NAME=VALUE`; an item hides what the file or an earlier item says of its name.

* `Variables.ofItem?`: the variable that an item sets.
* `Variables.ofJson?`: the variables that the text of a JSON object sets.
* `Variables.load`: the variables of a file and of items.
* `Variables.bindings`: variables as host values.
-/

namespace MarkupTemplate

/-- Names with JSON values; an earlier one hides a later one of the same name. -/
abbrev Variables := List (String × Json)

namespace Variables

/-- Cuts a text at its first equals sign. -/
def cutAtSign? (s : List Char) : Option (List Char × List Char) :=
  match s.dropWhile (· != '=') with
  | '=' :: value => some (s.takeWhile (· != '='), value)
  | _ => none

/-- The value that a text gives: that of its JSON, else the text itself. -/
def valueOf? (text : List Char) : Except Failure Json :=
  match Json.parse text with
  | .ok j => .ok j
  | .error f => if f.isSyntactic then .ok (.str (String.ofList text)) else .error (f.toFailure text)

/-- The variable that an item sets. -/
def ofItem? (item : String) : Except Failure (String × Json) :=
  match cutAtSign? item.toList with
  | some (name, value) =>
    if Text.isIdentifier name then do return (String.ofList name, ← valueOf? value)
    else .error (badItem item)
  | none => .error (badItem item)
where
  /-- The failure of an item without a name or without a value. -/
  badItem (item : String) : Failure :=
    .raised .value ("Invalid --var " ++ Text.quote item ++ ", expected NAME=VALUE")

/-- The variables that the text of a JSON object sets; `file` is what its file is called. -/
def ofJson? (file : String) (text : List Char) : Except Failure Variables :=
  match Json.parse text with
  | .ok (.obj members) => .ok members
  | .ok _ => .error (.raised .value (file ++ ": expected a JSON object"))
  | .error f => .error (f.toFailure text)

/-- The variables that items set over others, one item after another. -/
def addItems? (scope : Variables) : List String → Except Failure Variables
  | [] => .ok scope
  | item :: rest => do addItems? ((← ofItem? item) :: scope) rest

/-- The variables of a file, if one is named. -/
def ofFile {m : Type → Type} [Monad m] (files : FileSystem m) (file : String) :
    ExceptT Failure m Variables :=
  if file = "" then pure []
  else do ExceptT.mk (pure (ofJson? file (← files.readText (Path.ofText file))))

/-- The variables of a file and of items. -/
def load {m : Type → Type} [Monad m] (files : FileSystem m) (file : String)
    (items : List String) : ExceptT Failure m Variables := do
  ExceptT.mk (pure (addItems? (← ofFile files file) items))

/-- Variables as host values. -/
def bindings : Variables → Action Bindings
  | [] => pure []
  | (name, j) :: rest => do
    let v ← j.toValue
    return (name, v) :: (← bindings rest)

end Variables

end MarkupTemplate
