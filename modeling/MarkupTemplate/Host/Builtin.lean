import MarkupTemplate.Host.Operate
import MarkupTemplate.Host.Sort
import MarkupTemplate.Host.TextMethod

/-!
# Built-in functions and classes

What the functions of the host language compute, and what its classes make when they are called.

* `Builtin.apply`: a function.
* `Builtin.construct`: a class.
* `Builtin.isInstance`: whether a value belongs to a class.
-/

namespace MarkupTemplate.Host.Builtin

/-! ## Functions -/

/-- The number of items of a value. -/
def length (v : Value) : Action Value := do
  match v with
  | .str s => return .int s.length
  | .tuple items => return .int items.length
  | .range a b c =>
    Iterate.checkLength v
    return .int (Object.rangeLength a b c)
  | .itemsView d _ => return .int ((← Object.dict? (.object d)).getD []).length
  | _ =>
    match ← Object.list? v, ← Object.dict? v with
    | some items, _ => return .int items.length
    | _, some entries => return .int entries.length
    | _, _ => Object.failType v fun t => "object of type " ++ t ++ " has no len()"

/-- What a value is compared by: itself, or what a function makes of it. -/
def keyOf (self : Interp) (f v : Value) : Action Value :=
  match f with
  | .none => pure v
  | f => self.call f ⟨[v], []⟩

/-- The sorted items of a value. -/
def sorted (self : Interp) (args : Arguments) : Action Value := do
  let vs ← args.between "sorted" 1 1
  let items ← Iterate.items self (vs.headD .none)
  let named ← Signature.assign ⟨"sort", ["key", "reverse"], 0, 0⟩ { args with positional := [] }
  let falling ← match named.getD 1 none with
    | some v => do
      let n ← TextMethod.wordArgument 32 "int" v
      pure (n != 0)
    | none => pure false
  let key := (named.getD 0 none).getD .none
  let keyed ← items.mapM fun v => do return (← keyOf self key v, v)
  let ordered ← Sort.sorted self (if falling then keyed.reverse else keyed)
  Object.newList ((if falling then ordered.reverse else ordered).map (·.2))

/-- The items of a value added to a start value. -/
def sum (self : Interp) (args : Arguments) : Action Value := do
  match ← Signature.assign ⟨"sum", ["iterable", "start"], 1, 1⟩ args with
  | some v :: start :: _ =>
    let it ← Iterate.iter v
    match start with
    | some (.str _) => Action.raise .type "sum() can't sum strings [use ''.join(seq) instead]"
    | start => self.fold it (start.getD (.int 0)) (Operate.binary self .add)
  | _ => return .none

/-- The better one of two values with their keys; `none` before there is one. -/
def better (self : Interp) (op : CompareOp) (key : Value) (best v : Value) : Action Value := do
  let k ← keyOf self key v
  match best with
  | .tuple [b, _] =>
    if ← self.order op k b then return .tuple [k, v] else return best
  | _ => return .tuple [k, v]

/-- The least or the greatest of some values. -/
def extreme (self : Interp) (name : String) (op : CompareOp) (args : Arguments) : Action Value := do
  let unnamed := args.positional
  if unnamed.isEmpty then Action.raise .type (name ++ " expected at least 1 argument, got 0")
  let named ← Signature.assign ⟨name, ["key", "default"], 0, 0⟩ { args with positional := [] }
  let key := (named.getD 0 none).getD .none
  let default := named.getD 1 none
  match unnamed with
  | [v] =>
    match ← self.fold (← Iterate.iter v) .none (better self op key), default with
    | .tuple [_, v], _ => return v
    | _, some v => return v
    | _, none => Action.raise .value (name ++ "() arg is an empty sequence")
  | vs =>
    match default with
    | some _ =>
      Action.raise .type ("Cannot specify a default for " ++ name
        ++ "() with multiple positional arguments")
    | none =>
      match ← vs.foldlM (better self op key) .none with
      | .tuple [_, v] => return v
      | v => return v

/-- The absolute value of a number. -/
def absolute (v : Value) : Action Value :=
  match v.number? with
  | some (.int n) => pure (.int n.natAbs)
  | some (.float x) => Object.newFloat x.abs
  | some (.complex z) =>
    match z.length? with
    | some x => Object.newFloat x
    | none => Action.raise .overflow "absolute value too large"
  | none => Object.failType v fun t => "bad operand type for abs(): " ++ t

/-! ## Classes -/

/-- True of a value that belongs to a class. -/
def belongs (v : Value) (c : Class) : Action Bool := do
  match c with
  | .record c => return ((← Object.record? v).map (·.1)) == some c
  | .builtin .int => return v.int?.isSome
  | .builtin c =>
    match ← Object.record? v with
    | some _ => return false
    | none => return (← Object.typeName v) == c.name

/-- Whether a value belongs to a class or to one of several. -/
def isInstance (v : Value) : Value → Action Bool
  | .cls c => belongs v c
  | .union classes => classes.anyM fun
    | some c => belongs v c
    | none => pure (Object.same v .none)
  | .tuple [] => pure false
  | .tuple (c :: rest) => do
    if ← isInstance v c then return true else isInstance v (.tuple rest)
  | _ =>
    Action.raise .type "isinstance() arg 2 must be a type, a tuple of types, or a union"

/-- The value of a digit in bases up to 36. -/
def digitValue? (c : Char) : Option Nat :=
  match Text.decimalValue? c with
  | some d => some d
  | none =>
    if 'a' ≤ c ∧ c ≤ 'z' then some (c.toNat - 87)
    else if 'A' ≤ c ∧ c ≤ 'Z' then some (c.toNat - 55)
    else none

/-- True of a digit in a base. -/
def isDigitIn (base : Nat) (c : Char) : Bool := (digitValue? c).any (· < base)

/-- The base that a number in letters is written in, and its digits: base 0 takes the base from the
number itself. -/
def splitBase (base : Nat) (s : List Char) : Nat × List Char :=
  let mark := match s with
    | '0' :: c :: _ => if c = 'x' ∨ c = 'X' then 16
      else if c = 'o' ∨ c = 'O' then 8
      else if c = 'b' ∨ c = 'B' then 2 else 0
    | _ => 0
  if mark != 0 && (base = 0 || base = mark) then
    match s.drop 2 with
    | '_' :: rest => (mark, rest)
    | rest => (mark, rest)
  else (if base = 0 then 10 else base, s)

/-- True of the bases in which a number of any length can be read: the powers of two. -/
def isUnlimited (base : Nat) : Bool := [2, 4, 8, 16, 32].contains base

/-- The whole number that a text spells in a base. Too many digits are reported even if more than
digits follows them. -/
def intOfText (base : Nat) (s : String) : Action Value :=
  let (negative, rest) := Decimal.splitSign (Text.trim s.toList)
  let (actual, text) := splitBase base rest
  let body := text.takeWhile fun c => isDigitIn actual c || c == '_'
  match Decimal.ungroup (isDigitIn actual) body with
  | none => invalid
  | some digits =>
    let n := digits.foldl (fun n c => n * actual + (digitValue? c).getD 0) 0
    if Decimal.maxDigits < digits.length && !isUnlimited actual then
      Action.raise .value (Decimal.tooManyDigits (some digits.length))
    else if body.length < text.length then invalid
    else if base = 0 ∧ actual = 10 ∧ digits.head? = some '0' ∧ n ≠ 0 then invalid
    else pure (.int (if negative then -(n : Int) else n))
where
  /-- Fails because the text spells no whole number. -/
  invalid : Action Value :=
    Action.raise .value ("invalid literal for int() with base " ++ toString base ++ ": "
      ++ Text.quote s)

/-- The whole number that a value stands for. -/
def toInt (args : Arguments) : Action Value := do
  match ← Signature.assign ⟨"int", ["x", "base"], 1, 0⟩ args with
  | some v :: none :: _ =>
    match v, v.real? with
    | .str s, _ => intOfText 10 s
    | _, some n => return .int (← Action.ofExcept n.truncate)
    | _, none =>
      Object.failType v fun t =>
        "int() argument must be a string, a bytes-like object or a real number, not " ++ t
  | some v :: some base :: _ =>
    let base ← TextMethod.intArgument base
    if base ≠ 0 ∧ (base < 2 ∨ 36 < base) then
      Action.raise .value "int() base must be >= 2 and <= 36, or 0"
    else
      match v with
      | .str s => intOfText base.toNat s
      | _ => Action.raise .type "int() can't convert non-string with explicit base"
  | none :: some _ :: _ => Action.raise .type "int() missing string argument"
  | _ => return .int 0

/-- Fails when what says how a text is encoded is no text. -/
def checkCodec (parameter : String) : Option Value → Action Unit
  | none => pure ()
  | some v => do
    let _ ← TextMethod.textArgument v ("str() argument '" ++ parameter ++ "' must be str, not ")
    return ()

/-- The text that shows a value. No value is an encoded text. -/
def toText (self : Interp) (args : Arguments) : Action Value := do
  match ← Signature.assign ⟨"str", ["object", "encoding", "errors"], 0, 0⟩ args with
  | [v, encoding, errors] =>
    checkCodec "encoding" encoding
    checkCodec "errors" errors
    match v with
    | none => return .str ""
    | some v =>
      if encoding.isNone && errors.isNone then return .str (← Display.plain self v)
      else
        match v with
        | .str _ => Action.raise .type "decoding str is not supported"
        | _ =>
          Action.raise .type ("decoding to str: need a bytes-like object, "
            ++ (← Object.typeName v) ++ " found")
  | _ => return .none

/-- The float that a value stands for. -/
def toFloat (v : Value) : Action Value := do
  match v, v.real? with
  | .str s, _ => Object.newFloat (← Action.ofExcept (Number.floatOfText s))
  | .float _ _, _ => return v
  | _, some n => Object.newFloat (← Action.ofExcept n.toFloat)
  | _, none =>
    Object.failType v fun t => "float() argument must be a string or a real number, not " ++ t

/-- The only argument or none. -/
def atMostOne (name : String) (args : Arguments) : Action (Option Value) := do
  args.withoutNames name
  return (← args.between name 0 1).head?

/-- The dictionary that arguments make up. -/
def toDict (self : Interp) (args : Arguments) : Action Value := do
  let vs ← args.between "dict" 0 1
  let entries ← match vs with
    | v :: _ => Iterate.entriesOf self v
    | [] => pure []
  let named := args.named.map fun (name, v) => (Value.str name, v)
  Object.newDict (Compare.insertAll (entries ++ named) [])

/-- The range between arguments. -/
def toRange (args : Arguments) : Action Value := do
  args.withoutNames "range"
  match ← (← args.between "range" 1 3).mapM TextMethod.intArgument with
  | [stop] => return .range 0 stop 1
  | [start, stop] => return .range start stop 1
  | start :: stop :: step :: _ =>
    if step = 0 then Action.raise .value "range() arg 3 must not be zero"
    else return .range start stop step
  | [] => return .range 0 0 1

/-- An iterator as a value. -/
def iterator (s : Supply) : Action Value := do return .object (← Object.newIterator s)

/-- The items of a value with their numbers. -/
def enumerated (args : Arguments) : Action Value := do
  let given := args.positional.length + args.named.length
  if given = 0 ∨ (2 < given ∧ args.positional.isEmpty) then
    Action.raise .type "enumerate() missing required argument 'iterable'"
  else if 2 < given then
    Action.raise .type ("enumerate() takes at most 2 arguments (" ++ toString given ++ " given)")
  else
    let left := ["iterable", "start"].drop args.positional.length
    match args.named.find? fun (name, _) => !left.contains name with
    | some (name, _) => Signature.failName "enumerate" name
    | none =>
      match args.positional.head?.or (args.named.get? "iterable") with
      | some v =>
        let start := (args.positional[1]?).or (args.named.get? "start")
        let k ← TextMethod.intArgument (start.getD (.int 0))
        iterator (.numbered (← Iterate.iter v) k)
      | none => Signature.failName "enumerate" "start"

/-- The items of several values, those at one place together. Strict ones have to be as many. -/
def joint (args : Arguments) : Action Value := do
  let named ← Signature.assign ⟨"zip", ["strict"], 0, 0⟩ { args with positional := [] }
  let strict ← match named.headD none with
    | some v => Compare.truth v
    | none => pure false
  iterator (.joint strict (← args.positional.mapM Iterate.iter))

/-- The items of a value from the last to the first. -/
def backwards (v : Value) : Action Value := do
  match v with
  | .tuple items => iterator (.values "reversed" items.reverse)
  | .str s => iterator (.values "reversed" (Object.characters s).reverse)
  | .range start stop step =>
    let n := Object.rangeLength start stop step
    iterator (.numbers (start + ((n : Int) - 1) * step) (-step) n)
  | .itemsView d _ =>
    let entries := (← Object.dict? (.object d)).getD []
    iterator (.values "dict_reverseitemiterator" (entries.reverse.map fun (k, w) => .tuple [k, w]))
  | _ =>
    match v, ← Object.list? v, ← Object.dict? v with
    | .object id, some items, _ => iterator (.backwards id items.length)
    | .object id, _, some entries =>
      iterator (.keysBackwards id entries.length entries.length)
    | _, _, _ => Object.failType v fun t => t ++ " object is not reversible"

/-- What a class makes of arguments. -/
def construct (self : Interp) (c : BuiltinClass) (args : Arguments) : Action Value := do
  match c with
  | .int => toInt args
  | .float =>
    match ← atMostOne "float" args with
    | some v => toFloat v
    | none => return .float 0.0 0
  | .str => toText self args
  | .bool =>
    match ← atMostOne "bool" args with
    | some v => return .bool (← Compare.truth v)
    | none => return .bool false
  | .list =>
    match ← atMostOne "list" args with
    | some v => Object.newList (← Iterate.items self v)
    | none => Object.newList []
  | .tuple =>
    match ← atMostOne "tuple" args with
    | some v => return .tuple (← Iterate.items self v)
    | none => return .tuple []
  | .dict => toDict self args
  | .range => toRange args
  | .enumerate => enumerated args
  | .zip => joint args
  | .reversed =>
    args.withoutNames "reversed"
    backwards ((← args.between "reversed" 1 1).headD .none)

/-- What a function makes of arguments, unless it is a helper. -/
def apply (self : Interp) (f : Function) (args : Arguments) : Action Value := do
  match f with
  | .len => length (← args.one "len")
  | .sorted => sorted self args
  | .sum => sum self args
  | .min => extreme self "min" .lt args
  | .max => extreme self "max" .gt args
  | .abs => absolute (← args.one "abs")
  | .any =>
    let it ← Iterate.iter (← args.one "any")
    return .bool (← self.seek it Compare.truth)
  | .all =>
    let it ← Iterate.iter (← args.one "all")
    return .bool (!(← self.seek it fun v => do return !(← Compare.truth v)))
  | .repr => return .str (← Display.whole self (← args.one "repr"))
  | .isinstance =>
    args.withoutNames "isinstance"
    match ← args.between "isinstance" 2 2 with
    | [v, c] => return .bool (← isInstance v c)
    | _ => return .none
  | _ => return .none

end MarkupTemplate.Host.Builtin
