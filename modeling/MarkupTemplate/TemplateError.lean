import MarkupTemplate.Location

/-!
# Template errors

What can go wrong with a template: its text is malformed, a fragment of the host language fails, or
a format spec is not understood.

* `TemplateError.located`: the message of an error whose place is known ends with that place.
-/

namespace MarkupTemplate

/-- The kinds of template errors; `general` is the kind that none of the others covers. -/
inductive TemplateErrorKind where
  | general
  | malformed
  | evaluation
  | formatSpec
deriving DecidableEq, Repr

/-- An error with its full message and, when known, the offset it points at. -/
structure TemplateError where
  kind : TemplateErrorKind
  message : String
  pos : Option Int
deriving DecidableEq, Repr

namespace TemplateError

/-- The error that points at `pos`; with a known source the message names line and column. -/
def located (kind : TemplateErrorKind) (message : String) (pos : Int)
    (source : Option (List Char)) : TemplateError :=
  match source with
  | some text => ⟨kind, message ++ Location.describe text pos, some pos⟩
  | none => ⟨kind, message ++ " at " ++ toString pos, some pos⟩

/-- The error without a place. -/
def unlocated (kind : TemplateErrorKind) (message : String) : TemplateError :=
  ⟨kind, message, none⟩

/-- The error with a place or without one. -/
def ofParts (kind : TemplateErrorKind) (message : String) (pos : Option Int)
    (source : Option (List Char)) : TemplateError :=
  match pos with
  | some p => located kind message p source
  | none => unlocated kind message

end TemplateError

end MarkupTemplate
