import MarkupTemplate.Cursor.Forward
import MarkupTemplate.Node

/-!
# Reading attributes

The token after `name =` decides the form of the value: a literal, an expression in braces, a
conditional list in brackets, a group of parts in parentheses, or a closure between bars. Control
flow is no attribute value.

* `readParts`: literals and expressions, one after the other.
* `readClosure`: a writer's name between bars and the statements that use it.
* `readAttribute`: a name with an optional value.
* `advances_readAttribute`: an attribute takes at least one token.
-/

namespace MarkupTemplate

open Cursor

/-- The expression in a brace group, to be written in the given context. -/
def expressionOf (context : EscapeContext) (t : Token) : Except Fault Expression :=
  (splitExpression t).map fun (source, spec) => ⟨source, spec, context, t.pos⟩

/-- The literal or expression that a token stands for; any other token is a fault. -/
def partOf (context : EscapeContext) (cause : FaultCause) (t : Token) : Except Fault Part :=
  if t.isLiteral then .ok (.literal t.value)
  else if t.kind = .brace then (expressionOf context t).map .expression
  else .error ⟨cause, t.pos⟩

/-- The literals and expressions that some tokens stand for. -/
def readParts (context : EscapeContext) (cause : FaultCause) :
    List Token → Except Fault (List Part)
  | [] => .ok []
  | t :: tokens => do
    let part ← partOf context cause t
    let parts ← readParts context cause tokens
    return part :: parts

/-- The attribute value that a part is by itself. -/
def AttributeValue.ofPart : Part → AttributeValue
  | .literal s => .literal s
  | .expression e => .expression e
  | .unsupported kind _ => .unsupported kind

/-- True of the comma between two items. -/
def isComma (t : Token) : Bool := t.has .punct ","

/-- The items of a conditional list: literals, each with the source of its condition. The cursor
stands before the first token of the list. -/
def readItems (c : Cursor) : List Token → Except Fault (List (String × String))
  | [] => .ok []
  | part :: tokens =>
    if !part.isLiteral then .error ⟨.expectedListLiteral, part.pos⟩
    else
      let found := tokens.head?.getD c.ending
      if !found.has .punct ":" then .error ⟨.expectedValue ":" found, found.pos⟩
      else
        let condition := (tokens.drop 1).takeWhile (!isComma ·)
        let after := (tokens.drop 1).dropWhile (!isComma ·)
        if condition = [] then
          .error ⟨.missingCondition part.value, (after.head?.getD c.ending).pos⟩
        else do
          let items ← readItems c (after.drop 1)
          return (part.value, c.raw condition) :: items
termination_by tokens => tokens.length
decreasing_by
  have h := ((tokens.drop 1).dropWhile_sublist (!isComma ·)).length_le
  simp only [List.length_drop, List.length_cons] at h ⊢
  omega

/-- Takes the statements of a closure: the text of a brace group, or all up to a semicolon. -/
def readClosureBody : Reader String := do
  let t := (← get).head
  if t.kind = .brace then do
    let _ ← next
    return t.inner
  else do
    let statements ← takeUntil (·.has .punct ";") "';' after closure"
    let _ ← next
    return (← get).raw statements

/-- Takes a closure: a name between bars, then its statements. -/
def readClosure : Reader Closure := do
  let start ← expect .punct "|"
  let binding ← expectKind .ident
  let _ ← expect .punct "|"
  let body ← readClosureBody
  if Text.isAllBlank body.toList then failAt .emptyClosure start
  else return ⟨binding.value, body, start.pos⟩

/-- Takes the value of an attribute. -/
def readAttributeValue : Reader AttributeValue := do
  let c ← get
  let t := c.head
  if t.isLiteral then do
    let _ ← next
    return .literal t.value
  else if t.kind = .brace then do
    let _ ← next
    return .expression (← lift (expressionOf .attr t))
  else if t.kind = .bracket then do
    let _ ← next
    return .conditional (← lift (readItems (c.inside t) t.children)) t.pos
  else if t.kind = .paren then do
    let _ ← next
    let parts ← lift (readParts .attr .expectedGroupPart t.children)
    return .concat (parts.map .ofPart)
  else if t.has .punct "|" then do
    return .closure (← readClosure)
  else failAt (.badAttributeValue t) t

/-- Takes an attribute. -/
def readAttribute : Reader Attribute := do
  let name ← readName
  if (← get).sees .punct "=" then do
    let _ ← next
    let value ← readAttributeValue
    return ⟨name, some value⟩
  else return ⟨name, none⟩

theorem forward_readClosureBody : Forward readClosureBody :=
  Forward.get.bind fun _ =>
    .ite (Forward.next.bind fun _ => .pure _)
      ((forward_takeUntil _ _).bind fun _ => Forward.next.bind fun _ =>
        Forward.get.bind fun _ => .pure _)

theorem advances_readClosure : Advances readClosure :=
  (advances_expect "|" (by decide)).bind_left fun _ =>
    (forward_expectKind .ident).bind fun _ => (forward_expect .punct "|").bind fun _ =>
      forward_readClosureBody.bind fun _ => .ite (.failAt _ _) (.pure _)

theorem forward_readAttributeValue : Forward readAttributeValue :=
  Forward.get.bind fun _ =>
    .ite (Forward.next.bind fun _ => .pure _)
      (.ite (Forward.next.bind fun _ => (Forward.lift _).bind fun _ => .pure _)
        (.ite (Forward.next.bind fun _ => (Forward.lift _).bind fun _ => .pure _)
          (.ite (Forward.next.bind fun _ => (Forward.lift _).bind fun _ => .pure _)
            (.ite (advances_readClosure.1.bind fun _ => .pure _) (.failAt _ _)))))

theorem advances_readAttribute : Advances readAttribute :=
  advances_readName.bind_left fun _ => Forward.get.bind fun _ =>
    .ite (Forward.next.bind fun _ => forward_readAttributeValue.bind fun _ => .pure _) (.pure _)

end MarkupTemplate
