import MarkupTemplate.Complex
import MarkupTemplate.Failure

/-!
# Values

The values that host fragments compute with. Values that can change, and values with a state of
their own, are objects of a store and are held by their number there.

* `Value`: a value.
* `Class`: the classes that a fragment can name.
* `Method`: the methods of texts, lists, dictionaries and sinks.
* `Hook`: the ways in which an object supplied from outside can fail.
-/

namespace MarkupTemplate

/-- A class of records: its name, and the fields of its instances in order. -/
structure RecordClass where
  name : String
  fields : List String
deriving DecidableEq, Repr, Inhabited

/-- The classes that the host language brings along. -/
inductive BuiltinClass where
  | int
  | bool
  | str
  | float
  | list
  | tuple
  | dict
  | range
  | enumerate
  | zip
  | reversed
deriving DecidableEq, Repr, Inhabited

namespace BuiltinClass

/-- The name of a class. -/
def name : BuiltinClass → String
  | int => "int"
  | bool => "bool"
  | str => "str"
  | float => "float"
  | list => "list"
  | tuple => "tuple"
  | dict => "dict"
  | range => "range"
  | enumerate => "enumerate"
  | zip => "zip"
  | reversed => "reversed"

/-- All of them. -/
def all : List BuiltinClass :=
  [int, bool, str, float, list, tuple, dict, range, enumerate, zip, reversed]

end BuiltinClass

/-- The classes that a fragment can name. -/
inductive Class where
  | builtin (c : BuiltinClass)
  | record (c : RecordClass)
deriving DecidableEq, Repr, Inhabited

/-- The name of a class. -/
def Class.name : Class → String
  | builtin c => c.name
  | record c => c.name

/-- The functions that are visible by name: those of the host language, and the helpers for
markup. -/
inductive Function where
  | len
  | sorted
  | sum
  | min
  | max
  | abs
  | any
  | all
  | repr
  | isinstance
  | escape
  | join
  | spaced
  | csv
deriving DecidableEq, Repr, Inhabited

namespace Function

/-- The name of a function. -/
def name : Function → String
  | len => "len"
  | sorted => "sorted"
  | sum => "sum"
  | min => "min"
  | max => "max"
  | abs => "abs"
  | any => "any"
  | all => "all"
  | repr => "repr"
  | isinstance => "isinstance"
  | escape => "escape"
  | join => "join"
  | spaced => "spaced"
  | csv => "csv"

/-- The functions of the host language. -/
def hosted : List Function := [len, sorted, sum, min, max, abs, any, all, repr, isinstance]

/-- The helpers for markup. -/
def helpers : List Function := [escape, join, spaced, csv]

end Function

/-- The methods of values. -/
inductive Method where
  | upper
  | lower
  | strip
  | split
  | join
  | replace
  | startswith
  | find
  | append
  | pop
  | get
  | items
  | write
deriving DecidableEq, Repr, Inhabited

namespace Method

/-- The name of a method. -/
def name : Method → String
  | upper => "upper"
  | lower => "lower"
  | strip => "strip"
  | split => "split"
  | join => "join"
  | replace => "replace"
  | startswith => "startswith"
  | find => "find"
  | append => "append"
  | pop => "pop"
  | get => "get"
  | items => "items"
  | write => "write"

/-- The methods of texts. -/
def ofText : List Method := [upper, lower, strip, split, join, replace, startswith, find]

/-- The methods of lists. -/
def ofList : List Method := [append, pop]

/-- The methods of dictionaries. -/
def ofDict : List Method := [get, items]

/-- The methods of the instances of a class. -/
def ofClass : BuiltinClass → List Method
  | .str => ofText
  | .list => ofList
  | .dict => ofDict
  | _ => []

end Method

/-- What is asked of an object when its hook runs: its truth, its items, its formatted text or its
plain text. -/
inductive Hook where
  | truth
  | items
  | format
  | text
deriving DecidableEq, Repr, Inhabited

/-- A value. An `object` lives in the store. A `union` stands for several classes, of which `none`
is that of the value `none`. A `constant` function returns its value whatever it is called with, a
`failing` one ends with its failure, and `renderer` renders a template. A `method` is bound to the
value that it works on; an `unbound` one takes a value of its class as its first argument. A
`hooked` object of a foreign class fails when its hook is asked. A `writer` passes text on to a
sink.
Functions and objects supplied from outside are told apart by their `mark`, and so are the views of
a dictionary and numbers that do not equal themselves; other numbers have the mark zero. -/
inductive Value where
  | none
  | ellipsis
  | bool (b : Bool)
  | int (n : Int)
  | float (x : Float) (mark : Nat)
  | complex (z : Complex) (mark : Nat)
  | str (s : String)
  | tuple (items : List Value)
  | range (start stop step : Int)
  | slice (start stop step : Value)
  | object (id : Nat)
  | itemsView (dict mark : Nat)
  | cls (c : Class)
  | union (classes : List (Option Class))
  | function (f : Function)
  | method (self : Value) (m : Method)
  | unbound (c : BuiltinClass) (m : Method)
  | constant (mark : Nat) (result : Value)
  | failing (mark : Nat) (failure : Failure)
  | renderer
  | hooked (mark : Nat) (className : String) (hook : Hook) (failure : Failure)
  | writer (sink : Nat)
deriving Inhabited

/-- Names with the values they are bound to. -/
abbrev Bindings := List (String × Value)

namespace Bindings

/-- The value of a name; an earlier binding hides a later one. -/
def get? (b : Bindings) (name : String) : Option Value := (b.find? (·.1 == name)).map (·.2)

/-- The names of `new` bound over those of `old`. -/
def shadow (new old : Bindings) : Bindings := new ++ old

@[simp] theorem get?_nil (name : String) : get? [] name = none := rfl

theorem get?_shadow (new old : Bindings) (name : String) :
    (shadow new old).get? name = (new.get? name).or (old.get? name) := by
  simp only [get?, shadow, List.find?_append]
  cases List.find? (fun x => x.1 == name) new <;> simp

end Bindings

end MarkupTemplate
