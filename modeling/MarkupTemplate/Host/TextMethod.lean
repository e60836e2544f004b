import MarkupTemplate.Host.Item
import MarkupTemplate.Host.Parameters
import MarkupTemplate.Text.LetterCase

/-!
# Methods of texts

* `TextMethod.apply`: a method of a text.
* `TextMethod.splitAtWords`, `TextMethod.splitAtText`: a text cut at blanks or at another text.
-/

namespace MarkupTemplate.Host.TextMethod

/-- A text as a value. -/
def ofChars (s : List Char) : Value := .str (String.ofList s)

/-- The characters without those of a set at both ends. -/
def stripSet (set s : List Char) : List Char :=
  ((s.dropWhile set.contains).reverse.dropWhile set.contains).reverse

/-- A text cut at runs of blanks, at most `limit` times; what is left keeps its blanks inside. -/
def splitAtWords (limit : Nat) (s : List Char) : List (List Char) :=
  match limit with
  | 0 =>
    let rest := Text.trimLeft s
    if rest.isEmpty then [] else [rest]
  | n + 1 =>
    let s := Text.trimLeft s
    let word := s.takeWhile (!Text.isBlank ·)
    if word.isEmpty then [] else word :: splitAtWords n (s.drop word.length)

/-- A text cut at another text, at most `limit` times. -/
def splitAtText (limit : Nat) (sep s : List Char) : List (List Char) :=
  let pieces := Text.splitOn sep s
  if pieces.length ≤ limit + 1 then pieces
  else pieces.take limit ++ [((pieces.drop limit).intersperse sep).flatten]

/-- A text with another put before the first `limit` characters and, if the limit allows, at the
end. -/
def interleave (new : List Char) : Nat → List Char → List Char
  | 0, s => s
  | _ + 1, [] => new
  | n + 1, c :: rest => new ++ c :: interleave new n rest

/-- The first `limit` occurrences of a text replaced. -/
def replaceFirst (limit : Nat) (old new s : List Char) : List Char :=
  if old.isEmpty then interleave new limit s
  else ((splitAtText limit old s).intersperse new).flatten

/-- How often something may be done: a negative limit is none, and a text offers no more places
than it has characters, and one more. -/
def limitOf (s : List Char) (n : Option Int) : Nat :=
  match n with
  | some k => if 0 ≤ k then min k.toNat (s.length + 1) else s.length + 1
  | none => s.length + 1

/-- A whole number that is given as an argument. -/
def intArgument (v : Value) : Action Int :=
  match v.int? with
  | some n => pure n
  | none => Object.failType v fun t => t ++ " object cannot be interpreted as an integer"

/-- A whole number that is given as an argument and has to fit into a word of some bits. -/
def wordArgument (bits : Nat) (word : String) (v : Value) : Action Int := do
  let n ← intArgument v
  if Word.holds bits n then return n
  else Action.raise .overflow ("Python int too large to convert to C " ++ word)

/-- A whole number that is given as an argument and counts places. -/
def sizeArgument (v : Value) : Action Int := wordArgument 64 "ssize_t" v

/-- The name of the type of an argument, as its function gives it. -/
def argumentType (v : Value) : Action String :=
  match v with
  | .none => pure "None"
  | v => Object.typeName v

/-- A text that is given as an argument. -/
def textArgument (v : Value) (text : String) : Action (List Char) :=
  match v with
  | .str s => pure s.toList
  | _ => do Action.raise .type (text ++ (← argumentType v))

/-- The part of a text that a search is limited to, and where it starts; nothing when it starts
beyond its end. -/
def window (s : List Char) (bounds : List Value) : Action (Option (Nat × List Char)) := do
  let length : Int := s.length
  let start ← Item.bound? (bounds.getD 0 .none)
  let stop ← Item.bound? (bounds.getD 1 .none)
  let a := (start.map fun n => if n < 0 then max 0 (n + length) else n).getD 0
  let b := (stop.map (Item.clamp s.length 0 length)).getD length
  if a ≤ b then return some (a.toNat, Text.slice s a.toNat b.toNat) else return none

/-- The texts in a sequence, joined by another. -/
def join (self : Interp) (sep : List Char) (v : Value) : Action Value := do
  let items ← self.collect (← Iterate.iterOr v "can only join an iterable") pure
  let texts ← items.zipIdx.mapM fun (w, i) =>
    match w with
    | .str t => pure t.toList
    | _ => do
      Action.raise .type ("sequence item " ++ toString i ++ ": expected str instance, "
        ++ (← Object.typeName w) ++ " found")
  return ofChars (texts.intersperse sep).flatten

/-- Cuts a text by the arguments of its method. -/
def split (s : List Char) (args : Arguments) : Action Value := do
  let vs ← Signature.assign ⟨"split", ["sep", "maxsplit"], 0, 0⟩ args
  let limit := limitOf s (← (vs.getD 1 none).mapM sizeArgument)
  match (vs.getD 0 none).getD .none with
  | .none => Object.newList ((splitAtWords limit s).map ofChars)
  | .str sep =>
    if sep.isEmpty then Action.raise .value "empty separator"
    else Object.newList ((splitAtText limit sep.toList s).map ofChars)
  | v => do Action.raise .type ("must be str or None, not " ++ (← Object.typeName v))

/-- True when a part of a text opens with one of some texts. -/
def startsWith (s : List Char) (v : Value) (bounds : List Value) : Action Bool := do
  let found ← window s bounds
  let opens (pat : List Char) : Bool := found.any fun w => pat.isPrefixOf w.2
  match v with
  | .str pat => return opens pat.toList
  | .tuple pats =>
    let results ← pats.mapM fun p => do
      match p with
      | .str pat => return opens pat.toList
      | _ =>
        Action.raise .type ("tuple for startswith must only contain str, not "
          ++ (← Object.typeName p))
    return results.any id
  | _ => do
    Action.raise .type ("startswith first arg must be str or a tuple of str, not "
      ++ (← Object.typeName v))

/-- At least one argument and at most three. -/
def searchArguments (name : String) (args : Arguments) : Action (Value × List Value) := do
  args.withoutNames ("str." ++ name)
  match args.positional with
  | [] => Action.raise .type (name ++ "() takes at least 1 argument (0 given)")
  | v :: bounds =>
    if bounds.length ≤ 2 then return (v, bounds)
    else
      Action.raise .type (name ++ "() takes at most 3 arguments (" ++ toString (bounds.length + 1)
        ++ " given)")

/-- A method of a text, unless it is no method of texts. -/
def apply (self : Interp) (s : List Char) (m : Method) (args : Arguments) : Action Value := do
  let name := "str." ++ m.name
  match m with
  | .upper =>
    args.none name
    return ofChars (Text.upper s)
  | .lower =>
    args.none name
    return ofChars (Text.lower s)
  | .strip =>
    args.withoutNames name
    match ← args.between "strip" 0 1 with
    | .str set :: _ => return ofChars (stripSet set.toList s)
    | .none :: _ => return ofChars (Text.trim s)
    | [] => return ofChars (Text.trim s)
    | _ => Action.raise .type "strip arg must be None or str"
  | .split => split s args
  | .join => join self s (← args.one name)
  | .replace =>
    args.withoutNames name
    let vs ← args.between "replace" 2 3
    let old ← textArgument (vs.getD 0 .none) "replace() argument 1 must be str, not "
    let new ← textArgument (vs.getD 1 .none) "replace() argument 2 must be str, not "
    let limit ← (vs[2]?).mapM sizeArgument
    return ofChars (replaceFirst (limitOf s limit) old new s)
  | .startswith =>
    let (v, bounds) ← searchArguments m.name args
    return .bool (← startsWith s v bounds)
  | _ =>
    let (v, bounds) ← searchArguments m.name args
    let found ← window s bounds
    match v with
    | .str pat =>
      let place := found.bind fun (start, part) => Text.findFrom pat.toList start part
      return .int ((place.map Int.ofNat).getD (-1))
    | _ => Action.raise .type ("must be str, not " ++ (← Object.typeName v))

end MarkupTemplate.Host.TextMethod
