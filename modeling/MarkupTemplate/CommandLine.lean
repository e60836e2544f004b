import MarkupTemplate.CommandLine.Help
import MarkupTemplate.CommandLine.Request
import MarkupTemplate.Template
import MarkupTemplate.Variables

/-!
# The command line

Renders the template of a file and prints it or writes it to a file. Nothing is written unless the
whole template could be rendered: the text is put together first.

* `CommandLine.run`: what a command line does, and what it reports.
* `Invocation.conclude`: which failures are reported, and how.
-/

namespace MarkupTemplate.CommandLine

/-- What a run ends with: its exit status, what it prints, and what it says beside, which starts
with how the program is called when that was not understood. -/
structure Report where
  status : Nat
  output : String
  usage : String
  messages : String
deriving DecidableEq, Repr, Inhabited

/-- A run that failed, and what was noted before. -/
structure Stop where
  notes : List String
  failure : Failure

namespace Invocation

variable {m : Type → Type} [Monad m]

/-- What is said after all: the notes of a run that is asked for them, and the last words. -/
def messages (i : Invocation) (notes : List String) (last : String) : String :=
  (if i.verbose then String.join (notes.map fun note => "DEBUG:" ++ note ++ "\n") else "") ++ last

/-- The note that a template has been read. -/
def parsedNote (t : Template) : String :=
  program ++ ".parser:Parsed " ++ t.name ++ ": " ++ toString t.document.nodes.length
    ++ " top-level nodes"

/-- The note that rendering begins. -/
def startNote (t : Template) : String :=
  program ++ ".generator:Rendering " ++ toString t.document.nodes.length ++ " top-level nodes"

/-- The note that rendering has come to its end. -/
def endNote : String := program ++ ".generator:Rendering finished"

/-- A step of a run, with what was noted before it. -/
def noting {α : Type} (notes : List String) (x : ExceptT Failure m α) : ExceptT Stop m α :=
  x.adapt fun e => ⟨notes, e⟩

/-- A step that needs no file. -/
def ofExcept {α : Type} (x : Except Failure α) : ExceptT Failure m α := ExceptT.mk (pure x)

/-- The rendered text of a template. -/
def rendered (t : Template) (scope : Variables) : Except Failure String :=
  ((do t.render (← scope.bindings) : Action String) Store.empty).outcome

/-- Puts a text into the output file, if one is named; the result is what is left to be printed. -/
def deliver (i : Invocation) (files : FileSystem m) (text : String) : ExceptT Failure m String :=
  if i.output = "" then pure text
  else do
    files.writeText (Path.ofText i.output) text
    return ""

/-- Renders the template and delivers the text. -/
def perform (i : Invocation) (files : FileSystem m) (language : Language) :
    ExceptT Stop m Report := do
  let path := Path.ofText i.template
  let source ← noting [] (files.readText path)
  let t ← noting [] (ofExcept (Template.ofText? ⟨language, []⟩ path.text (String.ofList source)))
  let notes := [parsedNote t]
  let scope ← noting notes (Variables.load files i.variablesFile i.items)
  let notes := notes ++ [startNote t]
  let text ← noting notes (ofExcept (rendered t scope))
  let notes := notes ++ [endNote]
  let output ← noting notes (i.deliver files text)
  return ⟨0, output, "", i.messages notes ""⟩

/-- A text without the blanks at its end, as a line. -/
def line (text : String) : String := String.ofList (Text.trimRight text.toList) ++ "\n"

/-- What is reported of a run that failed. Only the failures of a template, of a file or of a value
are reported; any other failure is that of the program. -/
def conclude (i : Invocation) (s : Stop) : Except Failure Report :=
  match s.failure with
  | .template e => .ok ⟨1, "", "", i.messages s.notes (i.template ++ ": " ++ line e.message)⟩
  | .host e =>
    if e.kind.isOs || e.kind.isValue then
      .ok ⟨2, "", "", i.messages s.notes (line s.failure.text)⟩
    else .error s.failure

/-- Renders the template and reports how it went. -/
def run (i : Invocation) (files : FileSystem m) (language : Language) :
    m (Except Failure Report) := do
  match ← (i.perform files language).run with
  | .ok r => return .ok r
  | .error s => return i.conclude s

end Invocation

/-- What a command line does, and what it reports. -/
def run {m : Type → Type} [Monad m] (files : FileSystem m) (language : Language)
    (arguments : List String) : m (Except Failure Report) :=
  match Request.ofArguments? arguments with
  | .ok (.render i) => i.run files language
  | .ok .help => return .ok ⟨0, helpText, "", ""⟩
  | .ok .version => return .ok ⟨0, versionText, "", ""⟩
  | .error f => return .ok ⟨2, "", usage, program ++ ": error: " ++ f.message ++ "\n"⟩

end MarkupTemplate.CommandLine
