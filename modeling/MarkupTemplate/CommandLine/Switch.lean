import MarkupTemplate.Text.Quoted

/-!
# Switches

The switches of the command line and the arguments that spell them. A long switch may be cut short
as long as it is the only one that starts so; a value may be attached to a switch.

* `Switch`: the switches.
* `Argument.ofText?`: what an argument is, taken by itself.
* `UsageFault.message`: what can be wrong with a command line.
-/

namespace MarkupTemplate.CommandLine

/-- A switch of the command line. -/
inductive Switch where
  | help
  | variablesFile
  | item
  | output
  | verbose
  | version
deriving DecidableEq, Repr, Inhabited

namespace Switch

/-- The spellings of a switch. -/
def spellings : Switch → List String
  | help => ["-h", "--help"]
  | variablesFile => ["--vars"]
  | item => ["--var"]
  | output => ["-o", "--output"]
  | verbose => ["--verbose"]
  | version => ["--version"]

/-- True of the switches that take a value. -/
def takesValue : Switch → Bool
  | variablesFile => true
  | item => true
  | output => true
  | _ => false

/-- All switches. -/
def all : List Switch := [help, variablesFile, item, output, verbose, version]

/-- How a message names a switch. -/
def name (s : Switch) : String := "/".intercalate s.spellings

/-- Every spelling with its switch. -/
def table : List (String × Switch) := all.flatMap fun s => s.spellings.map fun text => (text, s)

/-- The switch of a spelling. -/
def ofSpelling? (text : String) : Option Switch := (table.find? (·.1 == text)).map (·.2)

/-- The switch of a single letter. -/
def ofLetter? (c : Char) : Option Switch := ofSpelling? (String.ofList ['-', c])

end Switch

/-- What can be wrong with a command line. -/
inductive UsageFault where
  | ambiguous (argument : String) (spellings : List String)
  | missingValue (s : Switch)
  | surplusValue (s : Switch) (value : String)
  | missingTemplate
  | surplus (arguments : List String)
deriving DecidableEq, Repr

/-- The wording of a fault. -/
def UsageFault.message : UsageFault → String
  | ambiguous argument spellings =>
    "ambiguous option: " ++ argument ++ " could match " ++ ", ".intercalate spellings
  | missingValue s => "argument " ++ s.name ++ ": expected one argument"
  | surplusValue s value =>
    "argument " ++ s.name ++ ": ignored explicit argument " ++ Text.quote value
  | missingTemplate => "the following arguments are required: template"
  | surplus arguments => "unrecognized arguments: " ++ " ".intercalate arguments

/-- A value that is part of the argument that spells its switch: it stands behind an equals sign, or
follows at once. -/
structure Attached where
  afterSign : Bool
  text : List Char
deriving DecidableEq, Repr

/-- What an argument is, taken by itself. A `cluster` is a letter with more letters or a value
behind it; a `separator` ends the switches. -/
inductive Argument where
  | plain (text : String)
  | long (s : Switch) (value : Option String)
  | cluster (s : Switch) (value : Option Attached)
  | unknown (text : String)
  | separator
deriving Repr

namespace Argument

/-- True of a text that reads as a negative number. -/
def isNegativeNumber (s : List Char) : Bool :=
  let body := if s.getLast? = some '\n' then s.dropLast else s
  match body with
  | '-' :: digits =>
    match digits.dropWhile Text.isDecimal with
    | [] => !digits.isEmpty
    | '.' :: fraction => !fraction.isEmpty && fraction.all Text.isDecimal
    | _ => false
  | _ => false

/-- The part of a text before its first equals sign, and the part behind it. -/
def splitAtSign (s : List Char) : List Char × Option (List Char) :=
  match s.dropWhile (· != '=') with
  | _ :: value => (s.takeWhile (· != '='), some value)
  | [] => (s, none)

/-- A spelled switch with a value that may be attached to it. -/
def ofSpelling (spelling : List Char) (s : Switch) (value : Option (List Char)) : Argument :=
  if ['-', '-'].isPrefixOf spelling then .long s (value.map String.ofList)
  else .cluster s (value.map (⟨true, ·⟩))

/-- An argument that spells no switch in full. -/
def ofOther (s : List Char) : Argument :=
  if isNegativeNumber s || s.contains ' ' then .plain (String.ofList s)
  else .unknown (String.ofList s)

/-- An argument that starts with two dashes and spells no switch in full. -/
def ofCutShort? (s : List Char) : Except UsageFault Argument :=
  let (start, value) := splitAtSign s
  match Switch.table.filter fun entry => start.isPrefixOf entry.1.toList with
  | [] => .ok (ofOther s)
  | [(_, switch)] => .ok (.long switch (value.map String.ofList))
  | entries => .error (.ambiguous (String.ofList s) (entries.map (·.1)))

/-- What an argument is, taken by itself. -/
def ofText? (argument : String) : Except UsageFault Argument :=
  let s := argument.toList
  match s with
  | '-' :: c :: rest =>
    let (start, value) := splitAtSign s
    match Switch.ofSpelling? argument, Switch.ofSpelling? (String.ofList start) with
    | some switch, _ => .ok (ofSpelling s switch none)
    | none, some switch => .ok (ofSpelling start switch value)
    | none, none =>
      if c = '-' then ofCutShort? s
      else
        match Switch.ofLetter? c with
        | some switch => .ok (.cluster switch (some ⟨false, rest⟩))
        | none => .ok (ofOther s)
  | _ => .ok (.plain argument)

/-- What the arguments of a command line are; behind a separator all of them are plain. -/
def ofTexts? : List String → Except UsageFault (List Argument)
  | [] => .ok []
  | text :: rest =>
    if text = "--" then .ok (.separator :: rest.map .plain)
    else do
      let a ← ofText? text
      return a :: (← ofTexts? rest)

end Argument

end MarkupTemplate.CommandLine
