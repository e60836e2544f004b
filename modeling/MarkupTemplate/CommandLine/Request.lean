import MarkupTemplate.CommandLine.Switch

/-!
# Requests

What a command line asks for: to render a template, or to tell about the program. Arguments are
taken from left to right, and a request to tell about the program is met as soon as it is read.

* `Invocation`: how to render a template.
* `Request.ofArguments?`: the request of a command line.
-/

namespace MarkupTemplate.CommandLine

/-- How to render a template. An empty text names no file. -/
structure Invocation where
  template : String
  variablesFile : String
  items : List String
  output : String
  verbose : Bool
deriving DecidableEq, Repr, Inhabited

/-- What a command line asks for. -/
inductive Request where
  | render (i : Invocation)
  | help
  | version
deriving DecidableEq, Repr

/-- What has been read of a command line; the items and the surplus are in reverse order. -/
structure Draft where
  template : Option String
  variablesFile : String
  items : List String
  output : String
  verbose : Bool
  surplus : List String
deriving Repr

namespace Draft

/-- Nothing has been read. -/
def empty : Draft := ⟨none, "", [], "", false, []⟩

/-- A switch got its value. -/
def setValue (d : Draft) (value : String) : Switch → Draft
  | .variablesFile => { d with variablesFile := value }
  | .item => { d with items := value :: d.items }
  | .output => { d with output := value }
  | _ => d

/-- An argument that nothing takes. -/
def addSurplus (d : Draft) (text : String) : Draft := { d with surplus := text :: d.surplus }

/-- A plain argument names the template, unless that has a name. -/
def addPlain (d : Draft) (text : String) : Draft :=
  match d.template with
  | none => { d with template := some text }
  | some _ => d.addSurplus text

/-- The request of a command line that has been read to its end. -/
def finish (d : Draft) : Except UsageFault Request :=
  match d.template with
  | none => .error .missingTemplate
  | some template =>
    if d.surplus.isEmpty then
      .ok (.render ⟨template, d.variablesFile, d.items.reverse, d.output, d.verbose⟩)
    else .error (.surplus d.surplus.reverse)

end Draft

/-- Checks the letters behind that of a switch without a value. A letter of a switch with a value
takes what is behind it, or else the next argument, which `next` tells to be plain. -/
def checkLetters (next : Bool) (s : Switch) : List Char → Except UsageFault Unit
  | [] => .ok ()
  | c :: rest =>
    if c = '-' then .error (.surplusValue s (String.ofList (c :: rest)))
    else
      match Switch.ofLetter? c with
      | none => .ok ()
      | some t =>
        if t.takesValue then
          if rest.isEmpty && !next then .error (.missingValue t) else .ok ()
        else if rest.head? = some '=' then .error (.surplusValue t (String.ofList (rest.drop 1)))
        else checkLetters next t rest

/-- Checks what is attached to a switch without a value. -/
def checkAttached (next : Bool) (s : Switch) : Option Attached → Except UsageFault Unit
  | none => .ok ()
  | some ⟨false, text⟩ => checkLetters next s text
  | some ⟨true, text⟩ => .error (.surplusValue s (String.ofList text))

/-- True when the first of the arguments is plain. -/
def startsPlain : List Argument → Bool
  | .plain _ :: _ => true
  | _ => false

/-- Reads the rest of a command line. -/
def readArguments (d : Draft) : List Argument → Except UsageFault Request
  | [] => d.finish
  | .separator :: rest =>
    match d.template with
    | some _ => readArguments (d.addSurplus "--") rest
    | none =>
      match rest with
      | .plain text :: more => readArguments (d.addPlain text) more
      | _ => (d.addSurplus "--").finish
  | .plain text :: .separator :: rest =>
    if d.template.isNone then readArguments (d.addPlain text) rest
    else readArguments ((d.addPlain text).addSurplus "--") rest
  | .plain text :: rest => readArguments (d.addPlain text) rest
  | .unknown text :: rest => readArguments (d.addSurplus text) rest
  | .long s (some v) :: rest =>
    if s.takesValue then readArguments (d.setValue v s) rest else .error (.surplusValue s v)
  | .long s none :: rest =>
    if s.takesValue then
      match rest with
      | .plain v :: more => readArguments (d.setValue v s) more
      | _ => .error (.missingValue s)
    else
      match s with
      | .help => .ok .help
      | .version => .ok .version
      | _ => readArguments { d with verbose := true } rest
  | .cluster s value :: rest =>
    if s.takesValue then
      match value with
      | some a => readArguments (d.setValue (String.ofList a.text) s) rest
      | none =>
        match rest with
        | .plain v :: more => readArguments (d.setValue v s) more
        | _ => .error (.missingValue s)
    else do
      checkAttached (startsPlain rest) s value
      return .help

/-- The request of a command line. -/
def Request.ofArguments? (arguments : List String) : Except UsageFault Request := do
  readArguments .empty (← Argument.ofTexts? arguments)

end MarkupTemplate.CommandLine
