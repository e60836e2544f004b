import MarkupTemplate.Node
import MarkupTemplate.Token

/-!
# Spots of host code

The places of a node that hold host code: expressions, closures, conditional lists, and the heads of
control flow. They are listed in rendering order, attributes before children and each condition
before its body.

* `Role`: what a fragment of host code is, and the tokens that end it.
* `Spot`: a place with its fragments and its position.
* `Node.spots`: the spots of a node.
-/
namespace MarkupTemplate

/-- What a fragment of host code is. -/
inductive Role where
  /-- The expression of a brace group. -/
  | expression
  /-- The condition of a branch, a scrutinee or an iterable: all up to the block. -/
  | head
  /-- The pattern of a binding or of a branch. -/
  | pattern
  /-- The pattern of an arm. -/
  | arm
  /-- The pattern of a loop. -/
  | binder
  /-- The value of a binding. -/
  | value
  /-- The statements of a closure. -/
  | statements
  /-- The condition of an item in a conditional list. -/
  | item
deriving DecidableEq, Repr

/-- True of the token that ends a fragment. -/
def Role.stops : Role → Token → Bool
  | expression => (·.has .punct ";")
  | head => (·.kind == .brace)
  | pattern => (·.has .punct "=")
  | arm => (·.kind == .arrow)
  | binder => (·.has .keyword "in")
  | value => (·.has .punct ";")
  | statements => (·.has .punct ";")
  | item => (·.has .punct ",")

/-- A piece of host code and what it is. -/
structure Fragment where
  role : Role
  text : String
deriving DecidableEq, Repr

/-- A place that holds host code. -/
inductive Spot where
  | expression (value : Expression)
  | closure (value : Closure)
  | conditions (items : List (String × String)) (pos : Nat)
  | binding (pattern value : String) (pos : Nat)
  | branch (condition : String) (pattern : Option String) (pos : Nat)
  | selection (scrutinee : String) (pos : Nat)
  | arm (pattern : String)
  | loop (pattern iterable : String) (pos : Nat)
deriving DecidableEq, Repr

namespace Spot

/-- Where the spot starts, as far as the node says so. -/
def pos? : Spot → Option Nat
  | expression e => some e.pos
  | closure c => some c.pos
  | conditions _ pos => some pos
  | binding _ _ pos => some pos
  | branch _ _ pos => some pos
  | selection _ pos => some pos
  | arm _ => none
  | loop _ _ pos => some pos

/-- The host code of the spot, in the order of the text. -/
def fragments : Spot → List Fragment
  | expression e => [⟨.expression, e.source⟩]
  | closure c => [⟨.statements, c.body⟩]
  | conditions items _ => items.map fun item => ⟨.item, item.2⟩
  | binding pattern value _ => [⟨.pattern, pattern⟩, ⟨.value, value⟩]
  | branch condition none _ => [⟨.head, condition⟩]
  | branch condition (some pattern) _ => [⟨.pattern, pattern⟩, ⟨.head, condition⟩]
  | selection scrutinee _ => [⟨.head, scrutinee⟩]
  | arm pattern => [⟨.arm, pattern⟩]
  | loop pattern iterable _ => [⟨.binder, pattern⟩, ⟨.head, iterable⟩]

end Spot

/-- The spots of a part. -/
def Part.spots : Part → List Spot
  | .expression e => [.expression e]
  | _ => []

namespace AttributeValue

mutual

/-- The spots of an attribute value. -/
def spots : AttributeValue → List Spot
  | expression e => [.expression e]
  | conditional items pos => [.conditions items pos]
  | concat parts => spotsAll parts
  | closure c => [.closure c]
  | literal _ | unsupported _ => []

/-- The spots of some attribute values. -/
def spotsAll : List AttributeValue → List Spot
  | [] => []
  | v :: vs => spots v ++ spotsAll vs

end

end AttributeValue

/-- The spots of an attribute. -/
def Attribute.spots (a : Attribute) : List Spot :=
  match a.value with
  | some v => v.spots
  | none => []

mutual

/-- The spots of a node, in rendering order. -/
def Node.spots : Node → List Spot
  | .expression e => [.expression e]
  | .closure c => [.closure c]
  | .element _ attributes _ children _ =>
    attributes.flatMap Attribute.spots ++ Node.spotsAll children
  | .comment parts | .cdata parts => parts.flatMap Part.spots
  | .binding pattern value pos => [.binding pattern value pos]
  | .choice branches otherwise => Branch.spotsAll branches ++ Node.spotsOption otherwise
  | .selection scrutinee arms pos => .selection scrutinee pos :: Arm.spotsAll arms
  | .loop pattern iterable body pos => .loop pattern iterable pos :: Node.spotsAll body
  | .text _ | .doctype _ | .instruction _ | .unsupported _ => []

/-- The spots of some nodes. -/
def Node.spotsAll : List Node → List Spot
  | [] => []
  | node :: nodes => Node.spots node ++ Node.spotsAll nodes

/-- The spots of a last resort, if there is one. -/
def Node.spotsOption : Option (List Node) → List Spot
  | none => []
  | some nodes => Node.spotsAll nodes

/-- The spots of some branches. -/
def Branch.spotsAll : List Branch → List Spot
  | [] => []
  | .mk condition body pattern pos :: branches =>
    .branch condition pattern pos :: (Node.spotsAll body ++ Branch.spotsAll branches)

/-- The spots of some arms. -/
def Arm.spotsAll : List Arm → List Spot
  | [] => []
  | .mk pattern body :: arms => .arm pattern :: (Node.spotsAll body ++ Arm.spotsAll arms)

end

theorem AttributeValue.spotsAll_eq_flatMap (vs : List AttributeValue) :
    spotsAll vs = vs.flatMap spots := by
  induction vs with
  | nil => rfl
  | cons v vs ih => rw [spotsAll, ih, List.flatMap_cons]

theorem Node.spotsAll_eq_flatMap (nodes : List Node) :
    Node.spotsAll nodes = nodes.flatMap Node.spots := by
  induction nodes with
  | nil => rfl
  | cons node nodes ih => rw [spotsAll, ih, List.flatMap_cons]

/-- The spots of a document. -/
def Document.spots (doc : Document) : List Spot := Node.spotsAll doc.nodes

end MarkupTemplate
