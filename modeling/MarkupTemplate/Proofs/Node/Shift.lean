import MarkupTemplate.Node

/-!
# Nodes further on

Nodes keep the offsets at which their expressions, closures and control flow start. The nodes of a
text that stands further on are the same nodes with every offset increased.

* `Node.shift`: a node, so many characters further on.
* `Node.shift_zero`: no characters further on, it is the node itself.
-/
namespace MarkupTemplate

/-- The expression `n` characters further on. -/
def Expression.shift (n : Nat) (e : Expression) : Expression := { e with pos := e.pos + n }

/-- The closure `n` characters further on. -/
def Closure.shift (n : Nat) (c : Closure) : Closure := { c with pos := c.pos + n }

/-- The part `n` characters further on. -/
def Part.shift (n : Nat) : Part → Part
  | .expression e => .expression (e.shift n)
  | part => part

namespace AttributeValue

mutual

/-- The attribute value `n` characters further on. -/
def shift (n : Nat) : AttributeValue → AttributeValue
  | literal text => literal text
  | expression e => expression (e.shift n)
  | conditional items pos => conditional items (pos + n)
  | concat parts => concat (shiftAll n parts)
  | closure c => closure (c.shift n)
  | unsupported kind => unsupported kind

/-- All attribute values `n` characters further on. -/
def shiftAll (n : Nat) : List AttributeValue → List AttributeValue
  | [] => []
  | v :: vs => shift n v :: shiftAll n vs

end

end AttributeValue

/-- The attribute `n` characters further on. -/
def Attribute.shift (n : Nat) (a : Attribute) : Attribute :=
  { a with value := a.value.map (AttributeValue.shift n) }

mutual

/-- The node `n` characters further on. -/
def Node.shift (n : Nat) : Node → Node
  | .text value => .text value
  | .expression e => .expression (e.shift n)
  | .closure c => .closure (c.shift n)
  | .element name attributes selfClosing children closeName =>
    .element name (attributes.map (Attribute.shift n)) selfClosing (Node.shiftAll n children)
      closeName
  | .doctype payload => .doctype payload
  | .instruction payload => .instruction payload
  | .comment parts => .comment (parts.map (Part.shift n))
  | .cdata parts => .cdata (parts.map (Part.shift n))
  | .binding pattern value pos => .binding pattern value (pos + n)
  | .choice branches otherwise =>
    .choice (Branch.shiftAll n branches) (Node.shiftOption n otherwise)
  | .selection scrutinee arms pos => .selection scrutinee (Arm.shiftAll n arms) (pos + n)
  | .loop pattern iterable body pos => .loop pattern iterable (Node.shiftAll n body) (pos + n)
  | .unsupported kind => .unsupported kind

/-- All nodes `n` characters further on. -/
def Node.shiftAll (n : Nat) : List Node → List Node
  | [] => []
  | node :: nodes => Node.shift n node :: Node.shiftAll n nodes

/-- The nodes of a last resort, if there is one, `n` characters further on. -/
def Node.shiftOption (n : Nat) : Option (List Node) → Option (List Node)
  | none => none
  | some nodes => some (Node.shiftAll n nodes)

/-- The branch `n` characters further on. -/
def Branch.shift (n : Nat) : Branch → Branch
  | .mk condition body pattern pos => .mk condition (Node.shiftAll n body) pattern (pos + n)

/-- All branches `n` characters further on. -/
def Branch.shiftAll (n : Nat) : List Branch → List Branch
  | [] => []
  | branch :: branches => Branch.shift n branch :: Branch.shiftAll n branches

/-- The arm `n` characters further on. -/
def Arm.shift (n : Nat) : Arm → Arm
  | .mk pattern body => .mk pattern (Node.shiftAll n body)

/-- All arms `n` characters further on. -/
def Arm.shiftAll (n : Nat) : List Arm → List Arm
  | [] => []
  | arm :: arms => Arm.shift n arm :: Arm.shiftAll n arms

end

theorem Node.shiftAll_eq_map (n : Nat) (nodes : List Node) :
    Node.shiftAll n nodes = nodes.map (Node.shift n) := by
  induction nodes with
  | nil => rfl
  | cons node nodes ih => rw [Node.shiftAll, ih, List.map_cons]

theorem Branch.shiftAll_eq_map (n : Nat) (branches : List Branch) :
    Branch.shiftAll n branches = branches.map (Branch.shift n) := by
  induction branches with
  | nil => rfl
  | cons branch branches ih => rw [Branch.shiftAll, ih, List.map_cons]

theorem Arm.shiftAll_eq_map (n : Nat) (arms : List Arm) :
    Arm.shiftAll n arms = arms.map (Arm.shift n) := by
  induction arms with
  | nil => rfl
  | cons arm arms ih => rw [Arm.shiftAll, ih, List.map_cons]

theorem AttributeValue.shiftAll_eq_map (n : Nat) (vs : List AttributeValue) :
    AttributeValue.shiftAll n vs = vs.map (AttributeValue.shift n) := by
  induction vs with
  | nil => rfl
  | cons v vs ih => rw [AttributeValue.shiftAll, ih, List.map_cons]

/-! ## No shift -/

theorem Expression.shift_zero (e : Expression) : e.shift 0 = e := rfl

theorem Closure.shift_zero (c : Closure) : c.shift 0 = c := rfl

theorem Part.shift_zero (p : Part) : p.shift 0 = p := by cases p <;> rfl

mutual

theorem AttributeValue.shift_zero : (v : AttributeValue) → v.shift 0 = v
  | .literal _ => rfl
  | .expression _ => rfl
  | .conditional _ _ => rfl
  | .concat parts => by rw [AttributeValue.shift, AttributeValue.shiftAll_zero parts]
  | .closure _ => rfl
  | .unsupported _ => rfl

theorem AttributeValue.shiftAll_zero : (vs : List AttributeValue) →
    AttributeValue.shiftAll 0 vs = vs
  | [] => rfl
  | v :: vs => by
    rw [AttributeValue.shiftAll, AttributeValue.shift_zero v, AttributeValue.shiftAll_zero vs]

end

theorem Attribute.shift_zero (a : Attribute) : a.shift 0 = a := by
  obtain ⟨name, value⟩ := a
  cases value with
  | none => rfl
  | some v => simp [Attribute.shift, AttributeValue.shift_zero]

theorem map_eq_self {α : Type} {f : α → α} (h : ∀ a, f a = a) (l : List α) : l.map f = l := by
  rw [funext h]; simp

mutual

theorem Node.shift_zero : (node : Node) → node.shift 0 = node
  | .text _ => rfl
  | .expression _ => rfl
  | .closure _ => rfl
  | .element _ attributes _ children _ => by
    rw [Node.shift, map_eq_self Attribute.shift_zero attributes, Node.shiftAll_zero children]
  | .doctype _ => rfl
  | .instruction _ => rfl
  | .comment parts => by rw [Node.shift, map_eq_self Part.shift_zero parts]
  | .cdata parts => by rw [Node.shift, map_eq_self Part.shift_zero parts]
  | .binding _ _ _ => rfl
  | .choice branches none => by rw [Node.shift, Branch.shiftAll_zero branches]; rfl
  | .choice branches (some nodes) => by
    rw [Node.shift, Branch.shiftAll_zero branches, Node.shiftOption, Node.shiftAll_zero nodes]
  | .selection _ arms _ => by rw [Node.shift, Arm.shiftAll_zero arms]; rfl
  | .loop _ _ body _ => by rw [Node.shift, Node.shiftAll_zero body]; rfl
  | .unsupported _ => rfl

theorem Node.shiftAll_zero : (nodes : List Node) → Node.shiftAll 0 nodes = nodes
  | [] => rfl
  | node :: nodes => by rw [Node.shiftAll, Node.shift_zero node, Node.shiftAll_zero nodes]

theorem Branch.shift_zero : (branch : Branch) → branch.shift 0 = branch
  | .mk _ body _ _ => by rw [Branch.shift, Node.shiftAll_zero body]; rfl

theorem Branch.shiftAll_zero : (branches : List Branch) → Branch.shiftAll 0 branches = branches
  | [] => rfl
  | branch :: branches => by
    rw [Branch.shiftAll, Branch.shift_zero branch, Branch.shiftAll_zero branches]

theorem Arm.shift_zero : (arm : Arm) → arm.shift 0 = arm
  | .mk _ body => by rw [Arm.shift, Node.shiftAll_zero body]

theorem Arm.shiftAll_zero : (arms : List Arm) → Arm.shiftAll 0 arms = arms
  | [] => rfl
  | arm :: arms => by rw [Arm.shiftAll, Arm.shift_zero arm, Arm.shiftAll_zero arms]

end

@[simp] theorem Node.map_shift_zero (nodes : List Node) : nodes.map (Node.shift 0) = nodes :=
  map_eq_self Node.shift_zero nodes

end MarkupTemplate
