/-!
# The host language

The fragments that a template embeds: expressions, patterns and statements, as trees.

* `Expr`: expressions, targets of assignments included.
* `Pattern`: what a value is matched against.
* `Stmt`: the statements of a closure.
-/

namespace MarkupTemplate.Host

/-- The constants that can be written down. -/
inductive Literal where
  | none
  | ellipsis
  | bool (b : Bool)
  | int (n : Int)
  | float (x : Float)
  | imaginary (x : Float)
  | str (s : String)
deriving Repr, Inhabited

/-- The operators before an operand. -/
inductive UnaryOp where
  | plus
  | minus
  | invert
  | not
deriving DecidableEq, Repr

/-- The operators between two operands. -/
inductive BinaryOp where
  | add
  | sub
  | mul
  | div
  | floorDiv
  | mod
  | pow
  | shiftLeft
  | shiftRight
  | bitAnd
  | bitOr
  | bitXor
  | matMul
deriving DecidableEq, Repr

/-- The sign of an operator. -/
def BinaryOp.sign : BinaryOp → String
  | add => "+"
  | sub => "-"
  | mul => "*"
  | div => "/"
  | floorDiv => "//"
  | mod => "%"
  | pow => "**"
  | shiftLeft => "<<"
  | shiftRight => ">>"
  | bitAnd => "&"
  | bitOr => "|"
  | bitXor => "^"
  | matMul => "@"

/-- The comparisons. -/
inductive CompareOp where
  | eq
  | ne
  | lt
  | le
  | gt
  | ge
  | same
  | notSame
  | member
  | notMember
deriving DecidableEq, Repr

/-- An expression. A clause of a comprehension holds its target, its iterable and its conditions;
an entry of a dictionary without a key spreads another dictionary; an unnamed argument after the
positional ones spreads a dictionary of names. -/
inductive Expr where
  | literal (value : Literal)
  | name (id : String)
  | tuple (items : List Expr)
  | list (items : List Expr)
  | dict (entries : List (Option Expr × Expr))
  | starred (value : Expr)
  | unary (op : UnaryOp) (operand : Expr)
  | binary (op : BinaryOp) (left right : Expr)
  | both (left right : Expr)
  | either (left right : Expr)
  | compare (first : Expr) (rest : List (CompareOp × Expr))
  | ifElse (test yes no : Expr)
  | member (object : Expr) (name : String)
  | item (object index : Expr)
  | slice (start stop step : Option Expr)
  | call (function : Expr) (args : List Expr) (named : List (Option String × Expr))
  | assign (name : String) (value : Expr)
  | listOf (element : Expr) (clauses : List (Expr × Expr × List Expr))
  | dictOf (key value : Expr) (clauses : List (Expr × Expr × List Expr))
  | generator (element : Expr) (clauses : List (Expr × Expr × List Expr))
  | joined (parts : List Expr)
  | field (value : Expr) (conversion : Option Char) (spec : Expr)
deriving Inhabited

/-- The clauses of a comprehension: target, iterable and conditions. -/
abbrev Clauses := List (Expr × Expr × List Expr)

/-- A pattern. The rest of a sequence may be bound to a name or dropped. -/
inductive Pattern where
  | literal (value : Expr)
  | constant (value : Literal)
  | value (dotted : Expr)
  | wildcard
  | capture (name : String)
  | sequence (before : List Pattern)
  | starSequence (before : List Pattern) (rest : Option String) (after : List Pattern)
  | mapping (entries : List (Expr × Pattern)) (rest : Option String)
  | instance (cls : Expr) (positional : List Pattern) (named : List (String × Pattern))
  | alternatives (options : List Pattern)
  | alias (pattern : Pattern) (name : String)
deriving Inhabited

/-- A pattern with its guard. -/
structure Clause where
  pattern : Pattern
  guard : Option Expr
deriving Inhabited

/-- A statement. -/
inductive Stmt where
  | expr (value : Expr)
  | assign (targets : List Expr) (value : Expr)
  | update (target : Expr) (op : BinaryOp) (value : Expr)
  | branch (test : Expr) (body otherwise : List Stmt)
  | forEach (target iterable : Expr) (body otherwise : List Stmt)
  | whileTest (test : Expr) (body otherwise : List Stmt)
  | leave
  | proceed
  | pass
deriving Inhabited

end MarkupTemplate.Host
