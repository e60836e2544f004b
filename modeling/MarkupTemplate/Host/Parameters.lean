import MarkupTemplate.Host.Interp
import MarkupTemplate.Text.Quoted

/-!
# Parameters

How the arguments of a call are matched with the parameters of a function, and what is said when
they do not match.

* `Parameters.assign`: the values of the parameters.
* `Signature.assign`: the values of the parameters of a function of the host language.
* `Arguments.one`, `Arguments.between`: the arguments of a function without named parameters.
-/

namespace MarkupTemplate.Host

/-- The parameters of a function: its name, the parameters that a call has to give, those that it
may leave out with the values they then have, whether further named arguments are taken, and
whether the object that a method belongs to counts among its arguments. -/
structure Parameters where
  function : String
  required : List String
  optional : Bindings
  takesFurther : Bool
  onObject : Bool

namespace Parameters

/-- The names of the parameters. -/
def names (p : Parameters) : List String := p.required ++ p.optional.map (·.1)

/-- Fails with a message about the function. -/
def failCall {α : Type} (p : Parameters) (text : String) : Action α :=
  Action.raise .type (p.function ++ "() " ++ text)

/-- Quoted names as a message lists them. -/
def listed (names : List String) : String :=
  match names.map fun n => "'" ++ n ++ "'" with
  | [] => ""
  | [a] => a
  | [a, b] => a ++ " and " ++ b
  | all => ", ".intercalate all.dropLast ++ ", and " ++ all.getLastD ""

/-- An ending for more than one. -/
def plural (n : Nat) : String := if n = 1 then "" else "s"

/-- What is said about too many arguments. -/
def surplusText (p : Parameters) (given : Nat) : String :=
  let self := if p.onObject then 1 else 0
  let most := p.names.length + self
  let count :=
    if p.optional.isEmpty then toString most
    else "from " ++ toString (p.required.length + self) ++ " to " ++ toString most
  let given := given + self
  "takes " ++ count ++ " positional argument" ++ plural most ++ " but " ++ toString given
    ++ (if given = 1 then " was" else " were") ++ " given"

/-- Gives the named arguments to parameters; the further ones are answered apart. -/
def assignNamed (p : Parameters) (given : Bindings) : Bindings → Action (Bindings × Bindings)
  | [] => pure (given, [])
  | (name, v) :: rest =>
    if p.names.contains name then
      if (given.get? name).isSome then
        p.failCall ("got multiple values for argument '" ++ name ++ "'")
      else assignNamed p ((name, v) :: given) rest
    else if p.takesFurther then do
      let (given, further) ← assignNamed p given rest
      return (given, (name, v) :: further)
    else p.failCall ("got an unexpected keyword argument '" ++ name ++ "'")

/-- The values of the parameters in order, and the further named arguments. -/
def assign (p : Parameters) (args : Arguments) : Action (List Value × Bindings) := do
  let (given, further) ← p.assignNamed (p.names.zip args.positional) args.named
  if args.positional.length > p.names.length then p.failCall (p.surplusText args.positional.length)
  else
    let missing := p.required.filter fun name => (given.get? name).isNone
    if missing.isEmpty then
      return (p.names.map fun name => ((given.shadow p.optional).get? name).getD .none, further)
    else
      p.failCall ("missing " ++ toString missing.length ++ " required positional argument"
        ++ plural missing.length ++ ": " ++ listed missing)

end Parameters

/-- The parameters of a function that the host language brings along: its name, the parameters in
order, how many of them are given by place only, and how many a call has to give. -/
structure Signature where
  function : String
  names : List String
  unnamed : Nat
  required : Nat

namespace Signature

/-- Fails because a call names a parameter that a function does not have. -/
def failName {α : Type} (function name : String) : Action α :=
  Action.raise .type ("'" ++ name ++ "' is an invalid keyword argument for " ++ function ++ "()")

/-- Fails because of the number of arguments. -/
def failCount {α : Type} (s : Signature) (bound : String) (n : Nat) (kind : String) (given : Nat) :
    Action α :=
  Action.raise .type (s.function ++ "() takes " ++ bound ++ " " ++ toString n ++ " " ++ kind
    ++ "argument" ++ Parameters.plural n ++ " (" ++ toString given ++ " given)")

/-- What the parameters are given. -/
def assign (s : Signature) (args : Arguments) : Action (List (Option Value)) := do
  let placed := args.positional.length
  let given := placed + args.named.length
  let nameable := s.names.drop s.unnamed
  if s.names.length < given then
    s.failCount "at most" s.names.length (if placed = 0 then "keyword " else "") given
  else if placed < min s.required s.unnamed then
    s.failCount "at least" s.required "positional " placed
  else
    match args.named.find? fun (name, _) => !nameable.contains name,
      args.named.find? fun (name, _) => (s.names.take placed).contains name with
    | _, some (name, _) =>
      Action.raise .type ("argument for " ++ s.function ++ "() given by name ('" ++ name
        ++ "') and position (" ++ toString (s.names.idxOf name + 1) ++ ")")
    | some (name, _), none => failName s.function name
    | none, none =>
      return s.names.zipIdx.map fun (name, i) => args.positional[i]?.or (args.named.get? name)

end Signature

namespace Arguments

/-- Fails if there are named arguments. -/
def withoutNames (args : Arguments) (function : String) : Action Unit :=
  if args.named.isEmpty then pure ()
  else Action.raise .type (function ++ "() takes no keyword arguments")

/-- No arguments. -/
def none (args : Arguments) (function : String) : Action Unit := do
  args.withoutNames function
  if args.positional.isEmpty then return ()
  else
    Action.raise .type (function ++ "() takes no arguments (" ++ toString args.positional.length
      ++ " given)")

/-- The only argument. -/
def one (args : Arguments) (function : String) : Action Value := do
  args.withoutNames function
  match args.positional with
  | [v] => return v
  | vs =>
    Action.raise .type (function ++ "() takes exactly one argument (" ++ toString vs.length
      ++ " given)")

/-- At least `low` and at most `high` arguments. -/
def between (args : Arguments) (function : String) (low high : Nat) : Action (List Value) := do
  let n := args.positional.length
  let count (word : String) (k : Nat) : String :=
    function ++ " expected " ++ word ++ toString k ++ " argument" ++ Parameters.plural k ++ ", got "
      ++ toString n
  if n < low then Action.raise .type (count (if low = high then "" else "at least ") low)
  else if high < n then Action.raise .type (count (if low = high then "" else "at most ") high)
  else return args.positional

end Arguments

end MarkupTemplate.Host
