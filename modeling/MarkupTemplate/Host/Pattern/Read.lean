import MarkupTemplate.Host.Expr.Read

/-!
# Reading patterns

The grammar of patterns, and the rules a pattern has to keep: it binds every name once, its
alternatives bind the same names, and only the last alternative may match everything.

* `Pattern.isSound`: the rules.
* `Clause.ofParts?`: a pattern with its guard, each read inside parentheses.
-/

namespace MarkupTemplate.Host

namespace Pattern

open Parse

/-- Takes a name that a pattern may bind. -/
def readTarget : Parse String := do
  let id ← freeName
  if id == "_" || !Expr.isFree id then failure else return id

/-- Goes on with a dotted name. -/
def readMembers : Nat → Expr → Parse Expr
  | 0, _ => failure
  | n + 1, object => do
    if ← accept "." then
      let id ← freeName
      readMembers n (.member object id)
    else return object

/-- True of an imaginary number. -/
def isImaginary : Literal → Bool
  | .imaginary _ => true
  | _ => false

/-- Reads the imaginary part that is joined to a real number by an operator. -/
def readImaginary (op : BinaryOp) (real : Expr) : Parse Expr := do
  advance
  match ← peek with
  | some (.number v) =>
    if isImaginary v then
      advance
      return .binary op real (.literal v)
    else failure
  | _ => failure

/-- Reads a number, signed or not; an imaginary part may be joined to a real number. -/
def readNumber : Parse Expr := do
  let negative ← accept "-"
  match ← peek with
  | some (.number v) =>
    advance
    let number : Expr := if negative then .unary .minus (.literal v) else .literal v
    match ← peek with
    | some (.op "+") => if isImaginary v then failure else readImaginary .add number
    | some (.op "-") => if isImaginary v then failure else readImaginary .sub number
    | _ => return number
  | _ => failure

/-- True when one of the string literals at the front of some lexemes is formatted. -/
def startsFormatted : List Lexeme → Bool
  | .string formatted _ _ :: rest => formatted || startsFormatted rest
  | _ => false

/-- Reads adjacent string literals, none of them formatted. -/
def readStrings : Nat → Parse Expr
  | 0 => failure
  | n + 1 => do if startsFormatted (← get) then failure else Expr.readStrings n

/-- Reads a literal that may be the key of a mapping. -/
def readKey : Nat → Parse Expr
  | 0 => failure
  | n + 1 => do
    match ← peek with
    | some (.string _ _ _) => readStrings n
    | some (.keyword "None") => advance; return .literal .none
    | some (.keyword "True") => advance; return .literal (.bool true)
    | some (.keyword "False") => advance; return .literal (.bool false)
    | some (.name _) =>
      let id ← freeName
      match ← readMembers n (.name id) with
      | .name _ => failure
      | dotted => return dotted
    | _ => readNumber

/-- A part of a sequence pattern: a pattern, or the rest with the name it is bound to. -/
abbrev SequencePart := Pattern ⊕ Option String

/-- The sequence pattern of its parts; at most one of them takes the rest. -/
def ofParts? (parts : List SequencePart) : Option Pattern :=
  let plain : List SequencePart → Option (List Pattern) := List.mapM fun
    | .inl p => some p
    | .inr _ => none
  let isPlain : SequencePart → Bool := fun
    | .inl _ => true
    | .inr _ => false
  match parts.dropWhile isPlain with
  | .inr rest :: after => do
    let before ← plain (parts.takeWhile isPlain)
    let after ← plain after
    return .starSequence before rest after
  | _ => (plain parts).map .sequence

mutual

/-- Reads a pattern with an optional name for the whole value. -/
def read : Nat → Parse Pattern
  | 0 => failure
  | n + 1 => do
    let first ← readClosed n
    let others ← readAlternatives n
    let pattern := if others.isEmpty then first else .alternatives (first :: others)
    if ← acceptWord "as" then return .alias pattern (← readTarget) else return pattern

/-- Reads further alternatives. -/
def readAlternatives : Nat → Parse (List Pattern)
  | 0 => failure
  | n + 1 => do
    if ← accept "|" then
      let p ← readClosed n
      return p :: (← readAlternatives n)
    else return []

/-- Reads a pattern, or the rest of a sequence. -/
def readPart : Nat → Parse SequencePart
  | 0 => failure
  | n + 1 => do
    if ← accept "*" then
      let id ← freeName
      if id == "_" then return .inr none
      else if Expr.isFree id then return .inr (some id)
      else failure
    else return .inl (← read n)

/-- Reads further parts of a sequence, each after a comma, up to a closing sign or a guard. -/
def readParts : Nat → String → Parse (List SequencePart)
  | 0, _ => failure
  | n + 1, close => do
    if ← accept "," then
      if (← seesOp close) || (← seesWord "if") then return []
      else
        let part ← readPart n
        return part :: (← readParts n close)
    else return []

/-- Reads the entries of a mapping after the first, up to the closing brace. -/
def readEntries : Nat → Parse (List (Expr × Pattern) × Option String)
  | 0 => failure
  | n + 1 => do
    if ← accept "\x7d" then return ([], none)
    else if ← accept "**" then
      let rest ← readTarget
      let _ ← accept ","
      expect "\x7d"
      return ([], some rest)
    else
      let key ← readKey n
      expect ":"
      let p ← read n
      if ← accept "," then
        let (entries, rest) ← readEntries n
        return ((key, p) :: entries, rest)
      else
        expect "\x7d"
        return ([(key, p)], none)

/-- Reads the arguments of an instance pattern and the closing parenthesis. After positional ones
the wildcard is a pattern and no name. -/
def readArguments : Nat → Parse (List Pattern × List (String × Pattern))
  | 0 => failure
  | n + 1 => do
    if ← accept ")" then return ([], [])
    else
      let (positional, named) ← readArgument n
      if ← accept ")" then return (positional, named)
      else
        expect ","
        let (morePositional, moreNamed) ← readArguments n
        let wildcardNamed := named.isEmpty && morePositional.isEmpty
          && (moreNamed.head?.map (·.1)) == some "_"
        if !named.isEmpty && !morePositional.isEmpty || wildcardNamed then failure
        else return (positional ++ morePositional, named ++ moreNamed)

/-- Reads one argument of an instance pattern. -/
def readArgument : Nat → Parse (List Pattern × List (String × Pattern))
  | 0 => failure
  | n + 1 => do
    match ← get with
    | .name id :: .op "=" :: rest =>
      if Expr.isFree id then
        set rest
        return ([], [(id, ← read n)])
      else failure
    | _ => return ([← read n], [])

/-- Reads a pattern without alternatives. -/
def readClosed : Nat → Parse Pattern
  | 0 => failure
  | n + 1 => do
    match ← peek with
    | some (.string _ _ _) => return .literal (← readStrings n)
    | some (.number _) => return .literal (← readNumber)
    | some (.op "-") => return .literal (← readNumber)
    | some (.keyword "None") => advance; return .constant .none
    | some (.keyword "True") => advance; return .constant (.bool true)
    | some (.keyword "False") => advance; return .constant (.bool false)
    | some (.name _) =>
      let id ← freeName
      if id == "_" then return .wildcard
      else
        let dotted ← readMembers n (.name id)
        if ← accept "(" then
          let (positional, named) ← readArguments n
          return .instance dotted positional named
        else match dotted with
          | .name id => if Expr.isFree id then return .capture id else failure
          | _ => return .value dotted
    | some (.op "(") =>
      advance
      if ← accept ")" then return .sequence []
      else
        let first ← readPart n
        if ← seesOp "," then
          let parts ← readParts n ")"
          expect ")"
          match ofParts? (first :: parts) with
          | some p => return p
          | none => failure
        else
          expect ")"
          match first with
          | .inl p => return p
          | .inr _ => failure
    | some (.op "[") =>
      advance
      if ← accept "]" then return .sequence []
      else
        let first ← readPart n
        let parts ← readParts n "]"
        expect "]"
        match ofParts? (first :: parts) with
        | some p => return p
        | none => failure
    | some (.op "\x7b") =>
      advance
      let (entries, rest) ← readEntries n
      return .mapping entries rest
    | _ => failure

end

/-! ## Rules -/

mutual

/-- The names that a pattern binds, in order. -/
def names : Pattern → List String
  | .literal _ => []
  | .constant _ => []
  | .value _ => []
  | .wildcard => []
  | .capture id => [id]
  | .sequence before => namesOfAll before
  | .starSequence before rest after => namesOfAll before ++ rest.toList ++ namesOfAll after
  | .mapping entries rest => namesOfEntries entries ++ rest.toList
  | .instance _ positional named => namesOfAll positional ++ namesOfNamed named
  | .alternatives options => namesOfFirst options
  | .alias p id => names p ++ [id]

/-- The names that some patterns bind. -/
def namesOfAll : List Pattern → List String
  | [] => []
  | p :: rest => names p ++ namesOfAll rest

/-- The names that the first of some alternatives binds. -/
def namesOfFirst : List Pattern → List String
  | [] => []
  | p :: _ => names p

/-- The names that the entries of a mapping bind. -/
def namesOfEntries : List (Expr × Pattern) → List String
  | [] => []
  | (_, p) :: rest => names p ++ namesOfEntries rest

/-- The names that named arguments bind. -/
def namesOfNamed : List (String × Pattern) → List String
  | [] => []
  | (_, p) :: rest => names p ++ namesOfNamed rest

end

/-- True when no name occurs twice. -/
def allDistinct : List String → Bool
  | [] => true
  | id :: rest => !rest.contains id && allDistinct rest

/-- The text of a key that is a float; one that is a whole number is the same key as that number. -/
def floatKeyText (negative : Bool) (x : Float) : String :=
  let signed (n : Nat) : String := "n" ++ toString (if negative then -(n : Int) else n)
  match Decimal.Binary.ofFloat? x with
  | some b =>
    let (num, den) := b.scaled 0
    if num % den = 0 then signed (num / den) else signed num ++ "/" ++ toString den
  | none => if negative then "n-inf" else "ninf"

/-- The text of a number without a sign. -/
def numberKeyText? (negative : Bool) : Literal → Option String
  | .int n => some ("n" ++ toString (if negative then -n else n))
  | .float x => some (floatKeyText negative x)
  | _ => none

/-- The text of a number with an imaginary part, which does not count when it is zero. -/
def complexKeyText (real : String) (negative : Bool) (x : Float) : String :=
  if x == 0.0 then real else real ++ "i" ++ floatKeyText negative x

/-- The texts of literal keys, by which repeated keys are found. -/
def keyText? : Expr → Option String
  | .literal (.str s) => some ("s" ++ s)
  | .literal (.bool b) => some (if b then "n1" else "n0")
  | .literal .none => some "none"
  | .literal (.imaginary x) => some (complexKeyText "n0" false x)
  | .literal v => numberKeyText? false v
  | .unary .minus (.literal (.imaginary x)) => some (complexKeyText "n0" true x)
  | .unary .minus (.literal v) => numberKeyText? true v
  | .binary op real (.literal (.imaginary x)) =>
    (keyText? real).map fun text => complexKeyText text (op == .sub) x
  | _ => none

/-- True when one list of names holds exactly the names of another. -/
def sameNames (a b : List String) : Bool := a.all b.contains && b.all a.contains

mutual

/-- The rules on alternatives and keys; `last` tells whether the pattern may match everything. -/
def isSound (last : Bool) : Pattern → Bool
  | .literal _ => true
  | .constant _ => true
  | .value _ => true
  | .wildcard => last
  | .capture _ => last
  | .sequence before => areSound before
  | .starSequence before _ after => areSound before && areSound after
  | .mapping entries _ =>
    areSoundEntries entries && allDistinct (entries.filterMap fun e => keyText? e.1)
  | .instance _ positional named =>
    areSound positional && areSoundNamed named && allDistinct (named.map (·.1))
  | .alternatives options => areSoundOptions last (namesOfFirst options) options
  | .alias p _ => isSound last p

/-- The rules for patterns inside another. -/
def areSound : List Pattern → Bool
  | [] => true
  | p :: rest => isSound true p && areSound rest

/-- The rules for the entries of a mapping. -/
def areSoundEntries : List (Expr × Pattern) → Bool
  | [] => true
  | (_, p) :: rest => isSound true p && areSoundEntries rest

/-- The rules for named arguments. -/
def areSoundNamed : List (String × Pattern) → Bool
  | [] => true
  | (_, p) :: rest => isSound true p && areSoundNamed rest

/-- The rules for alternatives, which all bind the same names. -/
def areSoundOptions (last : Bool) (bound : List String) : List Pattern → Bool
  | [] => true
  | p :: rest =>
    isSound (last && rest.isEmpty) p && sameNames (names p) bound
      && allDistinct (names p) && areSoundOptions last bound rest

end

end Pattern

namespace Clause

open Parse

/-- Reads a pattern, which may be a sequence without brackets around it. -/
def readPattern (n : Nat) : Parse Pattern := do
  let first ← Pattern.readPart n
  if ← seesOp "," then
    let parts ← Pattern.readParts n ""
    match Pattern.ofParts? (first :: parts) with
    | some p => return p
    | none => failure
  else match first with
    | .inl p => return p
    | .inr _ => failure

/-- Reads a clause. -/
def read (n : Nat) : Parse Clause := do
  let p ← readPattern n
  if ← acceptWord "if" then return ⟨p, some (← Expr.readNamed n)⟩ else return ⟨p, none⟩

/-- A text inside parentheses. -/
def enclosed (text : List Char) : List Char := "(\n".toList ++ text ++ "\n)".toList

/-- The clause of a pattern and an optional guard. They are read as one text, in which each stands
inside parentheses. -/
def ofParts? (pattern : List Char) (guard : Option (List Char)) : Option Clause := do
  let condition := match guard with
    | some g => " if ".toList ++ enclosed g
    | none => []
  let lexemes ← (Lexeme.ofText? (enclosed pattern ++ condition)).map List.dropLast
  let c ← whole (read (Expr.steps lexemes)) lexemes
  if c.pattern.isSound true && Pattern.allDistinct c.pattern.names then some c else none

end Clause

end MarkupTemplate.Host
