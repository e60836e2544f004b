/-!
# Nodes

The parsed form of a template: literal text, expressions with the escaping that their position asks
for, elements, the other kinds of markup, and control flow. Fragments of the host language are kept
as source text.

* `EscapeContext.name`: the name of an escaping context.
* `Document`: a parsed template together with its text.
-/

namespace MarkupTemplate

/-- Where a value is written, which decides how it is escaped; `unknown` is a context that no
escaping is defined for. -/
inductive EscapeContext where
  | text
  | attr
  | comment
  | cdata
  | unknown (name : String)
deriving DecidableEq, Repr, Inhabited

namespace EscapeContext

/-- The name of a context. -/
def name : EscapeContext → String
  | text => "text"
  | attr => "attribute"
  | comment => "comment"
  | cdata => "cdata"
  | unknown name => name

/-- The context of a name. -/
def ofName (name : String) : EscapeContext :=
  if name = "text" then text
  else if name = "attribute" then attr
  else if name = "comment" then comment
  else if name = "cdata" then cdata
  else unknown name

theorem name_ofName (s : String) : (ofName s).name = s := by
  unfold ofName; split
  · simp_all [name]
  · split
    · simp_all [name]
    · split
      · simp_all [name]
      · split <;> simp_all [name]

end EscapeContext

/-- A host expression with its format spec, written with the escaping of its context. -/
structure Expression where
  source : String
  spec : Option String
  context : EscapeContext
  pos : Nat
deriving DecidableEq, Repr, Inhabited

/-- Host statements that write to the output through a named writer. -/
structure Closure where
  binding : String
  body : String
  pos : Nat
deriving DecidableEq, Repr, Inhabited

/-- A piece of a comment or of a character data section; `unsupported` is an object of another kind
put in its place, with the name of the first field of an expression that it lacks. -/
inductive Part where
  | literal (text : String)
  | expression (value : Expression)
  | unsupported (kind lacking : String)
deriving DecidableEq, Repr, Inhabited

/-- The value of an attribute; `unsupported` is an object of another kind put in its place. -/
inductive AttributeValue where
  | literal (text : String)
  | expression (value : Expression)
  | conditional (items : List (String × String)) (pos : Nat)
  | concat (parts : List AttributeValue)
  | closure (value : Closure)
  | unsupported (kind : String)
deriving Repr, Inhabited

/-- An attribute; without a value it is written bare. -/
structure Attribute where
  name : String
  value : Option AttributeValue
deriving Repr, Inhabited

mutual

/-- A node of a template; `unsupported` is an object of another kind put in its place. -/
inductive Node where
  | text (value : String)
  | expression (value : Expression)
  | closure (value : Closure)
  | element (name : String) (attributes : List Attribute) (selfClosing : Bool)
    (children : List Node) (closeName : Option String)
  | doctype (payload : String)
  | instruction (payload : String)
  | comment (parts : List Part)
  | cdata (parts : List Part)
  | binding (pattern value : String) (pos : Nat)
  | choice (branches : List Branch) (otherwise : Option (List Node))
  | selection (scrutinee : String) (arms : List Arm) (pos : Nat)
  | loop (pattern iterable : String) (body : List Node) (pos : Nat)
  | unsupported (kind : String)

/-- A branch of a choice: taken when its condition is true or, with a pattern, when the value of
the condition matches. -/
inductive Branch where
  | mk (condition : String) (body : List Node) (pattern : Option String) (pos : Nat)

/-- An arm of a selection. -/
inductive Arm where
  | mk (pattern : String) (body : List Node)

end

instance : Inhabited Node := ⟨.text ""⟩

/-- A parsed template together with its text. -/
structure Document where
  nodes : List Node
  source : List Char

end MarkupTemplate
