import MarkupTemplate.Proofs.Node.Script
import MarkupTemplate.Proofs.WellFormed

/-!
# Who makes which call

Every call of a rendering is made for a spot of the document, with the host code of that spot and at
its position.

* `Spot.Asks`: the calls that are made for spots.
* `Script.within_nodes`: the nodes that the parser builds make no other calls, and stop by
  themselves only when a loop is too long.
* `Script.within_document`: the same for parsed documents.
-/
namespace MarkupTemplate

/-- A call made for one of some spots, at the position of that spot. The patterns of the arms of a
selection are tried at the position of the selection. -/
inductive Spot.Asks (spots : List Spot) : Nat → Call → Prop where
  | evaluate {e : Expression} {scope : Bindings} (h : .expression e ∈ spots) :
      Asks spots e.pos (.evaluate e.source scope)
  | format {e : Expression} {v : Value} (h : .expression e ∈ spots) :
      Asks spots e.pos (.format v e.spec)
  | execute {c : Closure} {scope : Bindings} (h : .closure c ∈ spots) :
      Asks spots c.pos (.execute c.body scope)
  | item {items : List (String × String)} {pos : Nat} {text condition : String} {scope : Bindings}
      (h : .conditions items pos ∈ spots) (hi : (text, condition) ∈ items) :
      Asks spots pos (.test condition scope)
  | value {pattern value : String} {pos : Nat} {scope : Bindings}
      (h : .binding pattern value pos ∈ spots) : Asks spots pos (.evaluate value scope)
  | bind {pattern value : String} {pos : Nat} {v : Value} {scope : Bindings}
      (h : .binding pattern value pos ∈ spots) : Asks spots pos (.bind pattern v scope)
  | condition {condition : String} {pos : Nat} {scope : Bindings}
      (h : .branch condition none pos ∈ spots) : Asks spots pos (.test condition scope)
  | subject {condition pattern : String} {pos : Nat} {scope : Bindings}
      (h : .branch condition (some pattern) pos ∈ spots) :
      Asks spots pos (.evaluate condition scope)
  | pattern {condition pattern : String} {pos : Nat} {v : Value} {scope : Bindings}
      (h : .branch condition (some pattern) pos ∈ spots) :
      Asks spots pos (.matching pattern v scope)
  | scrutinee {scrutinee : String} {pos : Nat} {scope : Bindings}
      (h : .selection scrutinee pos ∈ spots) : Asks spots pos (.evaluate scrutinee scope)
  | arm {scrutinee pattern : String} {pos : Nat} {v : Value} {scope : Bindings}
      (h : .selection scrutinee pos ∈ spots) (ha : .arm pattern ∈ spots) :
      Asks spots pos (.matching pattern v scope)
  | iterate {pattern iterable : String} {pos : Nat} {scope : Bindings}
      (h : .loop pattern iterable pos ∈ spots) : Asks spots pos (.iterate iterable scope)
  | next {pattern iterable : String} {pos iterator : Nat}
      (h : .loop pattern iterable pos ∈ spots) : Asks spots pos (.next iterable iterator)
  | each {pattern iterable : String} {pos : Nat} {v : Value} {scope : Bindings}
      (h : .loop pattern iterable pos ∈ spots) : Asks spots pos (.bind pattern v scope)

namespace Script

/-- The error of a loop that is too long. -/
def TooLong (kind : HostErrorKind) (text : String) : Prop :=
  kind = .recursion ∧ text = "maximum recursion depth exceeded"

section Calls

variable {spots : List Spot} {sink limit : Nat} {scope : Bindings}

theorem within_formatted {e : Expression} (h : .expression e ∈ spots) :
    (formatted e scope).Within (Spot.Asks spots) TooLong :=
  (within_ask (.evaluate h)).bind fun _ => within_ask (.format h)

theorem within_escaped {context : EscapeContext} (h : ∀ text, (escape? context text).isSome)
    (text : String) : (escaped context text).Within (Spot.Asks spots) TooLong := by
  obtain ⟨s, hs⟩ := Option.isSome_iff_exists.mp (h text)
  rw [escaped, hs]
  exact .done s

theorem within_expression {e : Expression} (hc : ∀ text, (escape? e.context text).isSome)
    (h : .expression e ∈ spots) : (expression e scope).Within (Spot.Asks spots) TooLong :=
  (within_formatted h).bind fun text => (within_escaped hc text).bind within_put

theorem within_joinedParts {context : EscapeContext} {parts : List Part}
    (hw : ∀ part ∈ parts, part.WellFormed context) (h : parts.flatMap Part.spots ⊆ spots) :
    (joinedParts scope parts).Within (Spot.Asks spots) TooLong := by
  induction parts with
  | nil => exact .done _
  | cons part rest ih =>
    obtain ⟨hpart, hrest⟩ := List.forall_mem_cons.mp hw
    rw [List.flatMap_cons, List.append_subset] at h
    cases hpart with
    | literal s => exact (ih hrest h.2).bind fun _ => .done _
    | expression _ =>
      exact (within_formatted (h.1 List.mem_cons_self)).bind fun _ =>
        (ih hrest h.2).bind fun _ => .done _

theorem within_closure {c : Closure} (h : .closure c ∈ spots) :
    (closure sink c scope).Within (Spot.Asks spots) TooLong :=
  within_ask (.execute h)

theorem within_conditional {items rest : List (String × String)} {pos : Nat}
    (h : .conditions items pos ∈ spots) (hr : rest ⊆ items) :
    (conditional pos scope rest).Within (Spot.Asks spots) TooLong := by
  induction rest with
  | nil => exact .done _
  | cons item rest ih =>
    obtain ⟨hi, hr⟩ := List.cons_subset.mp hr
    refine (within_ask (.item h hi)).bind fun b => ?_
    cases b with
    | false => exact ih hr
    | true => exact (within_put _).bind fun _ => ih hr

theorem within_concatenated {parts : List AttributeValue} (hw : ∀ part ∈ parts, part.Piece)
    (h : AttributeValue.spotsAll parts ⊆ spots) :
    (concatenated sink scope parts).Within (Spot.Asks spots) TooLong := by
  induction parts with
  | nil => exact .done _
  | cons part rest ih =>
    obtain ⟨hpart, hrest⟩ := List.forall_mem_cons.mp hw
    rw [AttributeValue.spotsAll, List.append_subset] at h
    refine Within.bind ?_ fun _ => ih hrest h.2
    cases hpart with
    | literal s => exact within_put _
    | expression hc =>
      exact within_expression (fun _ => by rw [hc]; rfl)
        (h.1 (by rw [AttributeValue.spots]; exact List.mem_cons_self))

theorem within_attributeValue {v : AttributeValue} (hw : v.WellFormed) (h : v.spots ⊆ spots) :
    (attributeValue sink scope v).Within (Spot.Asks spots) TooLong := by
  cases hw with
  | literal s => exact within_put _
  | expression hc =>
    rw [AttributeValue.spots, List.cons_subset] at h
    exact within_expression (fun _ => by rw [hc]; rfl) h.1
  | conditional items pos =>
    rw [AttributeValue.spots, List.cons_subset] at h
    exact within_conditional h.1 (List.Subset.refl _)
  | concat hp =>
    rw [AttributeValue.spots] at h
    exact within_concatenated hp h
  | closure c =>
    rw [AttributeValue.spots, List.cons_subset] at h
    exact within_closure h.1

theorem within_attributes {as : List Attribute} (hw : ∀ a ∈ as, a.WellFormed)
    (h : as.flatMap Attribute.spots ⊆ spots) :
    (attributes sink scope as).Within (Spot.Asks spots) TooLong := by
  induction as with
  | nil => exact .done _
  | cons a rest ih =>
    obtain ⟨ha, hrest⟩ := List.forall_mem_cons.mp hw
    rw [List.flatMap_cons, List.append_subset, Attribute.spots] at h
    refine (within_put _).bind fun _ => ?_
    cases hv : a.value with
    | none => exact ih hrest h.2
    | some v =>
      rw [hv] at h
      exact (within_put _).bind fun _ => (within_attributeValue (ha v hv) h.1).bind fun _ =>
        (within_put _).bind fun _ => ih hrest h.2

theorem within_taken? {condition : String} {pattern : Option String} {pos : Nat}
    (h : .branch condition pattern pos ∈ spots) :
    (taken? pos condition pattern scope).Within (Spot.Asks spots) TooLong := by
  cases pattern with
  | none =>
    refine (within_ask (.condition h)).bind fun b => ?_
    cases b <;> exact .done _
  | some p => exact (within_ask (.subject h)).bind fun _ => within_ask (.pattern h)

theorem within_eachItem {pattern iterable : String} {pos : Nat} {body : Bindings → Script Unit}
    (h : .loop pattern iterable pos ∈ spots) (hb : ∀ b, (body b).Within (Spot.Asks spots) TooLong)
    (iterator limit : Nat) :
    (eachItem pos pattern iterable scope body iterator limit).Within (Spot.Asks spots) TooLong := by
  induction limit with
  | zero => exact .stop ⟨rfl, rfl⟩
  | succ limit ih =>
    refine (within_ask (.next h)).bind fun item => ?_
    cases item with
    | none => exact .done _
    | some v => exact (within_ask (.each h)).bind fun _ => (hb _).bind fun _ => ih

mutual

theorem within_node {n : Node} (hw : n.WellFormed) (h : n.spots ⊆ spots) (scope : Bindings) :
    (node sink limit scope n).Within (Spot.Asks spots) TooLong := by
  cases n with
  | text _ | doctype _ | instruction _ => exact (within_put _).bind fun _ => .done _
  | unsupported _ => cases hw
  | expression e =>
    cases hw with | expression hc
    rw [Node.spots, List.cons_subset] at h
    exact (within_expression (fun _ => by rw [hc]; rfl) h.1).bind fun _ => .done _
  | closure c =>
    rw [Node.spots, List.cons_subset] at h
    exact (within_closure h.1).bind fun _ => .done _
  | element name attrs selfClosing children closeName =>
    rw [Node.spots, List.append_subset] at h
    refine (within_put _).bind fun _ => ?_
    cases hw with
    | void ha => exact (within_attributes ha h.1).bind fun _ => (within_put _).bind fun _ => .done _
    | element ha hc =>
      exact (within_attributes ha h.1).bind fun _ => (within_put _).bind fun _ =>
        (within_nodes hc h.2 scope).bind fun _ => (within_put _).bind fun _ => .done _
  | comment parts =>
    cases hw with | comment hp
    rw [Node.spots] at h
    exact (within_joinedParts hp h).bind fun _ => (within_put _).bind fun _ => .done _
  | cdata parts =>
    cases hw with | cdata hp
    rw [Node.spots] at h
    exact (within_joinedParts hp h).bind fun _ => (within_put _).bind fun _ => .done _
  | binding pattern value pos =>
    rw [Node.spots, List.cons_subset] at h
    exact (within_ask (.value h.1)).bind fun _ => (within_ask (.bind h.1)).bind fun _ => .done _
  | choice bs otherwise =>
    cases hw with | choice _ hb ho
    rw [Node.spots, List.append_subset] at h
    cases otherwise with
    | none => exact (within_branches hb h.1 scope (.done _)).bind fun _ => .done _
    | some ns =>
      rw [Node.spotsOption] at h
      have hns : (do let _ ← nodes sink limit scope ns : Script Unit).Within
          (Spot.Asks spots) TooLong :=
        (within_nodes (ho ns rfl) h.2 scope).bind fun _ => .done _
      exact (within_branches hb h.1 scope hns).bind fun _ => .done _
  | selection scrutinee as pos =>
    cases hw with | selection ha
    rw [Node.spots, List.cons_subset] at h
    exact (within_ask (.scrutinee h.1)).bind fun v =>
      (within_arms h.1 ha h.2 scope v).bind fun _ => .done _
  | loop pattern iterable body pos =>
    cases hw with | loop hb
    rw [Node.spots, List.cons_subset] at h
    refine (within_ask (.iterate h.1)).bind fun it => ?_
    refine (within_eachItem h.1 (fun b => ?_) it limit).bind fun _ => .done _
    exact (within_nodes hb h.2 b).bind fun _ => .done _

/-- Nodes that the parser builds make the calls of their spots, and no others. -/
theorem within_nodes {ns : List Node} (hw : ∀ n ∈ ns, n.WellFormed)
    (h : Node.spotsAll ns ⊆ spots) (scope : Bindings) :
    (nodes sink limit scope ns).Within (Spot.Asks spots) TooLong := by
  cases ns with
  | nil => exact .done _
  | cons n rest =>
    obtain ⟨hn, hrest⟩ := List.forall_mem_cons.mp hw
    rw [Node.spotsAll, List.append_subset] at h
    exact (within_node hn h.1 scope).bind fun b => within_nodes hrest h.2 b

theorem within_branches {bs : List Branch}
    (hw : ∀ condition body pattern pos, Branch.mk condition body pattern pos ∈ bs →
      ∀ n ∈ body, n.WellFormed)
    (h : Branch.spotsAll bs ⊆ spots) (scope : Bindings) {otherwise : Script Unit}
    (ho : otherwise.Within (Spot.Asks spots) TooLong) :
    (branches sink limit scope otherwise bs).Within (Spot.Asks spots) TooLong := by
  cases bs with
  | nil => exact ho
  | cons b rest =>
    obtain ⟨condition, body, pattern, pos⟩ := b
    rw [Branch.spotsAll, List.cons_subset, List.append_subset] at h
    obtain ⟨hspot, hbody, hrest⟩ := h
    refine (within_taken? hspot).bind fun taken => ?_
    cases taken with
    | none =>
      exact within_branches (fun c b p q hm => hw c b p q (List.mem_cons_of_mem _ hm)) hrest scope
        ho
    | some b =>
      exact (within_nodes (hw _ _ _ _ List.mem_cons_self) hbody _).bind fun _ => .done _

theorem within_arms {scrutinee : String} {pos : Nat} {as : List Arm}
    (hs : .selection scrutinee pos ∈ spots)
    (hw : ∀ pattern body, Arm.mk pattern body ∈ as → ∀ n ∈ body, n.WellFormed)
    (h : Arm.spotsAll as ⊆ spots) (scope : Bindings) (v : Value) :
    (arms sink limit pos scope v as).Within (Spot.Asks spots) TooLong := by
  cases as with
  | nil => exact .done _
  | cons a rest =>
    obtain ⟨pattern, body⟩ := a
    rw [Arm.spotsAll, List.cons_subset, List.append_subset] at h
    obtain ⟨harm, hbody, hrest⟩ := h
    refine (within_ask (.arm hs harm)).bind fun matched => ?_
    cases matched with
    | none =>
      exact within_arms hs (fun p b hm => hw p b (List.mem_cons_of_mem _ hm)) hrest scope v
    | some b =>
      exact (within_nodes (hw _ _ List.mem_cons_self) hbody _).bind fun _ => .done _

end

/-- A parsed document makes the calls of its spots, and no others. -/
theorem within_document {text : List Char} {doc : Document}
    (h : Document.ofText? text = .ok doc) (sink limit : Nat) (scope : Bindings) :
    (document sink limit doc scope).Within (Spot.Asks doc.spots) TooLong :=
  (within_nodes (Document.nodes_wellFormed h) (List.Subset.refl _) scope).bind fun _ => .done _

end Calls

end Script

end MarkupTemplate
