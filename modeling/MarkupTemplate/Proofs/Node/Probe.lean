import MarkupTemplate.Proofs.Fragment
import MarkupTemplate.Proofs.Skeleton

/-!
# Fragments that are run by themselves

A document of markup, without control flow and closures, has host code only in its expressions and
in the conditions of its conditional lists. Each of these fragments is run by itself. They stand in
the text in the order in which the document lists them.

* `Node.Markup`: the nodes of such a document.
* `Probe`: an expression or a condition, with the position of its node.
* `Document.probes`: those of a document, in rendering order;
  `Document.fragments_eq_probes`: they are all its fragments.
* `Document.probes_along`: where they stand in the text.
-/
namespace MarkupTemplate

open Text (slice)

/-! ## Markup -/

/-- A text, an expression, an element of plain attributes and such nodes, or markup of another
kind. -/
inductive Node.Markup : Node → Prop where
  | text (value : String) : Markup (.text value)
  | expression (e : Expression) : Markup (.expression e)
  | element {name : String} {attributes : List Attribute} {selfClosing : Bool}
      {children : List Node} {closeName : Option String} (ha : ∀ a ∈ attributes, a.Plain)
      (hc : ∀ child ∈ children, Markup child) :
      Markup (.element name attributes selfClosing children closeName)
  | comment (parts : List Part) : Markup (.comment parts)
  | cdata (parts : List Part) : Markup (.cdata parts)
  | doctype (payload : String) : Markup (.doctype payload)
  | instruction (payload : String) : Markup (.instruction payload)

/-! ## Probes -/

/-- A fragment that is run by itself. -/
inductive Probe where
  | expression (value : Expression)
  | condition (source : String) (pos : Nat)
deriving DecidableEq, Repr

namespace Probe

/-- The host code and what it is. -/
def fragment : Probe → Fragment
  | expression e => ⟨.expression, e.source⟩
  | condition source _ => ⟨.item, source⟩

/-- The host code. -/
def source (p : Probe) : String := p.fragment.text

/-- The position of the node that the fragment belongs to. -/
def pos : Probe → Nat
  | expression e => e.pos
  | condition _ pos => pos

end Probe

/-- The fragments of a spot that are run by themselves. -/
def Spot.probes : Spot → List Probe
  | expression e => [.expression e]
  | conditions items pos => items.map fun item => .condition item.2 pos
  | _ => []

/-- The fragments of some spots that are run by themselves. -/
def probesOf (spots : List Spot) : List Probe := spots.flatMap Spot.probes

/-- The fragments of a document that are run by themselves, in rendering order. -/
def Document.probes (doc : Document) : List Probe := probesOf doc.spots

@[simp] theorem probesOf_append (ss ss' : List Spot) :
    probesOf (ss ++ ss') = probesOf ss ++ probesOf ss' := List.flatMap_append

/-! ## Spots of markup -/

/-- All fragments of the spot are run by themselves. -/
def Spot.Probed (s : Spot) : Prop := s.fragments = s.probes.map Probe.fragment

theorem Spot.probed_expression (e : Expression) : (Spot.expression e).Probed := rfl

theorem Spot.probed_conditions (items : List (String × String)) (pos : Nat) :
    (Spot.conditions items pos).Probed := by
  rw [Probed, probes, fragments, List.map_map]
  rfl

theorem mem_probesOf_spotsAll {n : Node} {ns : List Node} (hn : n ∈ ns) {p : Probe}
    (hp : p ∈ probesOf n.spots) : p ∈ probesOf (Node.spotsAll ns) := by
  obtain ⟨s, hs, hp⟩ := List.mem_flatMap.mp hp
  rw [Node.spotsAll_eq_flatMap]
  exact List.mem_flatMap.mpr ⟨s, List.mem_flatMap.mpr ⟨n, hn, hs⟩, hp⟩

theorem AttributeValue.Plain.probed {v : AttributeValue} (h : v.Plain) :
    ∀ s ∈ v.spots, s.Probed := by
  induction h with
  | literal => simp [spots]
  | expression e => simpa [spots] using Spot.probed_expression e
  | conditional items pos => simpa [spots] using Spot.probed_conditions items pos
  | concat _ ih =>
    intro s hs
    rw [spots, spotsAll_eq_flatMap] at hs
    obtain ⟨part, hp, hs⟩ := List.mem_flatMap.mp hs
    exact ih part hp s hs

theorem Attribute.Plain.probed {a : Attribute} (h : a.Plain) : ∀ s ∈ a.spots, s.Probed := by
  intro s hs
  unfold spots at hs
  cases hv : a.value with
  | none => rw [hv] at hs; cases hs
  | some v => rw [hv] at hs; exact (h v hv).probed s hs

theorem Part.probed (parts : List Part) : ∀ s ∈ parts.flatMap Part.spots, s.Probed := by
  intro s hs
  obtain ⟨part, -, hs⟩ := List.mem_flatMap.mp hs
  cases part with
  | expression e =>
    obtain rfl := List.mem_singleton.mp hs
    exact Spot.probed_expression e
  | literal => cases hs
  | unsupported => cases hs

theorem Node.Markup.probed {n : Node} (h : n.Markup) : ∀ s ∈ n.spots, s.Probed := by
  induction h with
  | text | doctype | instruction => simp [spots]
  | expression e => simpa [spots] using Spot.probed_expression e
  | comment parts | cdata parts =>
    rw [spots]
    exact Part.probed parts
  | element ha _ ih =>
    intro s hs
    rw [spots, spotsAll_eq_flatMap] at hs
    rcases List.mem_append.mp hs with hs | hs
    · obtain ⟨a, hm, hs⟩ := List.mem_flatMap.mp hs
      exact (ha a hm).probed s hs
    · obtain ⟨child, hm, hs⟩ := List.mem_flatMap.mp hs
      exact ih child hm s hs

/-- All fragments of a document of markup are run by themselves. -/
theorem Document.fragments_eq_probes (doc : Document) (hm : ∀ n ∈ doc.nodes, n.Markup) :
    doc.spots.flatMap Spot.fragments = doc.probes.map Probe.fragment := by
  rw [probes, probesOf, List.map_flatMap]
  refine List.flatMap_congr fun s hs => ?_
  rw [spots, Node.spotsAll_eq_flatMap] at hs
  obtain ⟨n, hn, hs⟩ := List.mem_flatMap.mp hs
  exact (hm n hn).probed s hs

/-! ## Where probes stand -/

/-- A fragment of host code is what stands in the text between two offsets. -/
def Fragment.Shown (text : List Char) (f : Fragment) (a b : Nat) : Prop :=
  slice text a b = f.text.toList

section

variable {text : List Char} {xs ts ys : List Token} {lo hi : Nat}

theorem Cut.shown {role : Role} {s : String} (h : Cut text role ts s) (hr : Row text xs ts ys)
    (hb : Bounded lo hi ts) : Along (Fragment.Shown text) lo [⟨role, s⟩] hi := by
  obtain ⟨hne, -, rfl⟩ := h
  obtain ⟨B, A, C, hlevel, rfl, rfl, -⟩ := hr.atoms
  obtain ⟨t, u, a, z, ht, hu, ha, hz, hpos, hstop⟩ := ends_of_classify hne
  have hslice : slice text t.pos u.stop = (sourceOf text (classify A)).toList := by
    rw [sourceOf_classify hlevel hne, String.toList_ofList, Text.ofAtoms, ha, hz, ← hpos, ← hstop]
  have hle : t.pos ≤ u.stop := by
    rw [← hpos, ← hstop]
    exact Nat.le_of_lt (hlevel.neighbours ha hz).lt
  exact .cons (hb.2 t (List.mem_of_head? ht)).1 hslice hle
    (.nil (hb.2 u (List.mem_of_getLast? hu)).2)

theorem Fragment.Made.shown {f : Fragment} {left : Option Token} (h : f.Made text left ts)
    (hr : Row text xs ts ys) (hb : Bounded lo hi ts) :
    Along (Fragment.Shown text) lo [f] hi := by
  cases h with
  | cut h => exact h.shown hr hb
  | expression hk h =>
    obtain ⟨ts, us, hrow, hcut, hbounded⟩ := hr.expression_cut hk h hb
    exact hcut.shown hrow hbounded
  | @braced bar t _ hk =>
    obtain ⟨hinner, hle, -, -⟩ := hr.interior (Token.isGroup_of_kind (b := .curly) hk)
    have ht := hb.2 t List.mem_cons_self
    exact .cons (by omega) hinner.symm hle (.nil (by omega))

end

theorem Along.of_map {α β : Type} {At : β → Nat → Nat → Prop} {f : α → β} {lo hi : Nat}
    {xs : List α} (h : Along At lo (xs.map f) hi) : Along (fun x => At (f x)) lo xs hi := by
  induction xs generalizing lo with
  | nil =>
    cases h with
    | nil h => exact .nil h
  | cons x xs ih =>
    cases h with
    | cons hlo hx hab h => exact .cons hlo hx hab (ih h)

/-- The fragments of a document of markup stand in its text in the order in which they are listed,
each at a place of its own. -/
theorem Document.probes_along {text : List Char} {doc : Document}
    (h : Document.ofText? text = .ok doc) (hm : ∀ n ∈ doc.nodes, n.Markup) :
    Along (fun p a b => slice text a b = p.source.toList) 0 doc.probes text.length := by
  obtain ⟨atoms, hscan, hd⟩ := derives_of_ofText? h
  obtain ⟨hrow, hbounded⟩ := row_of_scan hscan
  have hlaid : Laid (Spot.Made text) none (classify atoms) doc.spots := hd.laid none trivial
  have halong : Along (Fragment.Shown text) 0 (doc.spots.flatMap Spot.fragments) text.length :=
    (hlaid.flatMap fun _ _ _ hm => hm.laid).along (fun hr hm hb => hm.shown hr hb) hrow rfl
      hbounded
  rw [doc.fragments_eq_probes hm] at halong
  exact halong.of_map

end MarkupTemplate
