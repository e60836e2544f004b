import MarkupTemplate.TemplateError

/-!
# Failures

What a run can end with instead of a result: a template error, or an error of the host language,
which has a class and a text of its own.

* `HostErrorKind.className`: the class names of host errors.
* `Failure.summary`: a failure as the text of another error mentions it.
-/

namespace MarkupTemplate

/-- The classes of host errors. -/
inductive HostErrorKind where
  | value
  | type
  | key
  | index
  | attr
  | undefined
  | unboundLocal
  | runtime
  | recursion
  | zeroDivision
  | overflow
  | memory
  | stopIteration
  | os
  | fileNotFound
  | isADirectory
  | notADirectory
  | permission
  | unicodeDecode
  | jsonDecode
  | malformed
  | unbalanced
deriving DecidableEq, Repr, Inhabited

namespace HostErrorKind

/-- The name of a class. -/
def className : HostErrorKind → String
  | value => "ValueError"
  | type => "TypeError"
  | key => "KeyError"
  | index => "IndexError"
  | attr => "AttributeError"
  | undefined => "NameError"
  | unboundLocal => "UnboundLocalError"
  | runtime => "RuntimeError"
  | recursion => "RecursionError"
  | zeroDivision => "ZeroDivisionError"
  | overflow => "OverflowError"
  | memory => "MemoryError"
  | stopIteration => "StopIteration"
  | os => "OSError"
  | fileNotFound => "FileNotFoundError"
  | isADirectory => "IsADirectoryError"
  | notADirectory => "NotADirectoryError"
  | permission => "PermissionError"
  | unicodeDecode => "UnicodeDecodeError"
  | jsonDecode => "JSONDecodeError"
  | malformed => "SyntaxError"
  | unbalanced => "TokenError"

/-- True of the classes of unsuitable values. -/
def isValue (k : HostErrorKind) : Bool :=
  k == value || k == unicodeDecode || k == jsonDecode

/-- True of the classes of operating system errors. -/
def isOs (k : HostErrorKind) : Bool :=
  k == os || k == fileNotFound || k == isADirectory || k == notADirectory || k == permission

end HostErrorKind

/-- An error of the host language; a compiler's error has no text here. -/
structure HostError where
  kind : HostErrorKind
  text : Option String
deriving DecidableEq, Repr, Inhabited

/-- What a run can end with instead of a result. -/
inductive Failure where
  | template (error : TemplateError)
  | host (error : HostError)
deriving DecidableEq, Repr

namespace TemplateErrorKind

/-- The name of a class of template errors. -/
def name : TemplateErrorKind → String
  | general => "TemplateError"
  | malformed => "TemplateSyntaxError"
  | evaluation => "ExpressionEvaluationError"
  | formatSpec => "FormatSpecError"

end TemplateErrorKind

namespace Failure

/-- A host error with a text. -/
def raised (kind : HostErrorKind) (text : String) : Failure := .host ⟨kind, some text⟩

/-- The text of a failure; empty when it has none. -/
def text : Failure → String
  | template e => e.message
  | host e => e.text.getD ""

/-- Class name and text, as the text of another error mentions them. -/
def summary : Failure → String
  | template e => e.kind.name ++ ": " ++ e.message
  | host ⟨kind, some text⟩ => kind.className ++ ": " ++ text
  | host ⟨kind, none⟩ => kind.className

/-- True of the failures of an unsuitable value or of an unsuitable type. -/
def isValueOrType : Failure → Bool
  | template e => e.kind == .formatSpec
  | host e => e.kind.isValue || e.kind == .type

/-- True of the failures of a value of an unsuitable type. -/
def isType : Failure → Bool
  | template _ => false
  | host e => e.kind == .type

/-- The failure that leaves a generator, which may not pass on the mark of an exhausted iterator. -/
def leavingGenerator : Failure → Failure
  | host ⟨.stopIteration, _⟩ => raised .runtime "generator raised StopIteration"
  | e => e

end Failure

end MarkupTemplate
