import MarkupTemplate.Host.Expr

/-!
# Bound names

The names that expressions bind: those that a target of an assignment holds, and those that are
bound in passing by an expression, however deep.

* `Expr.isFree`: the names that can be bound.
* `Expr.targetNames`: the names that a target binds.
* `Expr.mentions`: the names that occur in an expression.
* `Expr.assignedNames`: the names that an expression binds in passing.
* `Expr.isSoundComprehension`: what a comprehension may bind in passing.
-/

namespace MarkupTemplate.Host.Expr

/-- True of a name that can be bound. -/
def isFree (name : String) : Bool := name != "__debug__"

mutual

/-- The names that a target binds. -/
def targetNames : Expr → List String
  | .name id => [id]
  | .tuple items => allTargetNames items
  | .list items => allTargetNames items
  | .starred e => targetNames e
  | _ => []

/-- The names that some targets bind. -/
def allTargetNames : List Expr → List String
  | [] => []
  | e :: rest => targetNames e ++ allTargetNames rest

end

/-- An occurrence of a name: a use, a binding in passing, or such a binding inside a comprehension
within the expression. -/
inductive Mention where
  | used (id : String)
  | bound (id : String)
  | boundWithin (id : String)
deriving DecidableEq, Repr

namespace Mention

/-- What an occurrence inside a comprehension is outside of it. -/
def outside? : Mention → Option Mention
  | used _ => none
  | bound id => some (boundWithin id)
  | boundWithin id => some (boundWithin id)

/-- The name of a use. -/
def used? : Mention → Option String
  | used id => some id
  | _ => none

/-- The name of a binding that is in no comprehension. -/
def bound? : Mention → Option String
  | bound id => some id
  | _ => none

/-- The name of a binding. -/
def assigned? : Mention → Option String
  | used _ => none
  | bound id => some id
  | boundWithin id => some id

end Mention

mutual

/-- The names that occur in an expression. Of a comprehension, only the first iterable stands in the
same scope as what is around. -/
def mentions : Expr → List Mention
  | .literal _ => []
  | .name id => [.used id]
  | .tuple items => mentionsInAll items
  | .list items => mentionsInAll items
  | .dict entries => mentionsInEntries entries
  | .starred e => mentions e
  | .unary _ e => mentions e
  | .binary _ a b => mentions a ++ mentions b
  | .both a b => mentions a ++ mentions b
  | .either a b => mentions a ++ mentions b
  | .compare a rest => mentions a ++ mentionsInLinks rest
  | .ifElse a b c => mentions a ++ mentions b ++ mentions c
  | .member e _ => mentions e
  | .item a b => mentions a ++ mentions b
  | .slice a b c => mentionsInOption a ++ mentionsInOption b ++ mentionsInOption c
  | .call f args named => mentions f ++ mentionsInAll args ++ mentionsInNamed named
  | .assign id e => mentions e ++ [.bound id]
  | .listOf e clauses =>
    mentionsInFirst clauses ++ (mentionsInClauses clauses ++ mentions e).filterMap (·.outside?)
  | .dictOf k v clauses =>
    mentionsInFirst clauses
      ++ (mentionsInClauses clauses ++ mentions k ++ mentions v).filterMap (·.outside?)
  | .generator e clauses =>
    mentionsInFirst clauses ++ (mentionsInClauses clauses ++ mentions e).filterMap (·.outside?)
  | .joined parts => mentionsInAll parts
  | .field e _ spec => mentions e ++ mentions spec

/-- The names that occur in some expressions. -/
def mentionsInAll : List Expr → List Mention
  | [] => []
  | e :: rest => mentions e ++ mentionsInAll rest

/-- The names that occur in an expression, if there is one. -/
def mentionsInOption : Option Expr → List Mention
  | none => []
  | some e => mentions e

/-- The names that occur in the entries of a dictionary. -/
def mentionsInEntries : List (Option Expr × Expr) → List Mention
  | [] => []
  | (k, v) :: rest => mentionsInOption k ++ mentions v ++ mentionsInEntries rest

/-- The names that occur in the links of a chain of comparisons. -/
def mentionsInLinks : List (CompareOp × Expr) → List Mention
  | [] => []
  | (_, e) :: rest => mentions e ++ mentionsInLinks rest

/-- The names that occur in named arguments. -/
def mentionsInNamed : List (Option String × Expr) → List Mention
  | [] => []
  | (_, e) :: rest => mentions e ++ mentionsInNamed rest

/-- The names that occur in the first iterable of clauses. -/
def mentionsInFirst : List (Expr × Expr × List Expr) → List Mention
  | [] => []
  | (_, e, _) :: _ => mentions e

/-- The names that occur in clauses, the first iterable apart. -/
def mentionsInClauses : List (Expr × Expr × List Expr) → List Mention
  | [] => []
  | (target, _, conditions) :: rest =>
    mentions target ++ mentionsInAll conditions ++ mentionsInFirst rest ++ mentionsInClauses rest

end

/-- The names that an expression binds in passing. -/
def assignedNames (e : Expr) : List String := (mentions e).filterMap (·.assigned?)

/-- True when clauses bind names in passing only where they may: not in a target or an iterable, and
no name that occurs in a target before. Nor may a name that a condition binds itself occur in a
later target. `targets` are the names in the targets so far, `bound` those that the conditions so
far bind themselves; `elements` are what the comprehension computes in the end. -/
def areSoundClauses (elements : List Expr) (targets bound : List String) : Clauses → Bool
  | [] => (mentionsInAll elements).all fun m => m.assigned?.all (!targets.contains ·)
  | (target, iterable, conditions) :: rest =>
    let inTarget := mentions target
    let inConditions := mentionsInAll conditions
    let targets := targets ++ inTarget.filterMap (·.used?)
    inTarget.all (fun m => m.bound?.isNone && m.used?.all (!bound.contains ·))
      && (assignedNames iterable).isEmpty
      && inConditions.all (fun m => m.assigned?.all (!targets.contains ·))
      && areSoundClauses elements targets (bound ++ inConditions.filterMap (·.bound?)) rest

/-- True of a comprehension that binds names in passing only where it may. -/
def isSoundComprehension (elements : List Expr) (clauses : Clauses) : Bool :=
  areSoundClauses elements [] [] clauses

end MarkupTemplate.Host.Expr
