import MarkupTemplate.Host.Run
import MarkupTemplate.Proofs.Conditional
import MarkupTemplate.Proofs.Node.Probe
import MarkupTemplate.Proofs.Piece
import MarkupTemplate.Proofs.Sequence
import MarkupTemplate.Proofs.StartTag
import MarkupTemplate.Proofs.WellFormed

/-!
# The first failure of a document of markup

A document of markup runs its fragments once each, in the order in which they stand in the text. If
none of them has an effect on another, the rendering ends as the first one does that fails by
itself, and goes through if there is none.

* `Probe.run`: a fragment by itself.
* `Later`, `Independent`: fragments without an effect on each other.
* `Tries`: a run that tries some fragments, one after the other, and does nothing else that could
  fail; `Tries.bind`: two such runs.
* `Render.tries_node`, `Render.tries_nodes`: nodes try their fragments, and so does a document
  (`Document.tries`).
* `first_failure`: the law for parsed documents.
-/
namespace MarkupTemplate

open MarkupTemplate.Action

theorem Node.Markup.isBinding_eq {n : Node} (h : n.Markup) : n.isBinding = false := by
  cases h <;> rfl

/-! ## Failures of runs -/

/-- The failure of a run in a store, if it fails there. -/
def Action.failure? {α : Type} (x : Action α) (s : Store) : Option Failure :=
  match (x s).outcome with
  | .ok _ => none
  | .error f => some f

namespace Action

variable {α : Type} {x : Action α} {s : Store} {f : Failure}

theorem failure?_eq_some_iff : x.failure? s = some f ↔ (x s).outcome = .error f := by
  unfold failure?
  cases (x s).outcome with
  | ok a => simp
  | error g => simp

theorem failure?_eq_none_iff : x.failure? s = none ↔ ∃ a, (x s).outcome = .ok a := by
  unfold failure?
  cases (x s).outcome with
  | ok a => simp
  | error g => simp

/-- A run whose value is given up fails as it did, and leaves the same store. -/
theorem failure?_discard (x : Action α) (s : Store) :
    (x >>= fun _ => (pure () : Action Unit)).failure? s = x.failure? s
      ∧ ((x >>= fun _ => (pure () : Action Unit)) s).store = (x s).store := by
  cases hx : (x s).outcome with
  | ok a =>
    obtain ⟨ho, hs⟩ := bind_of_ok (f := fun _ => (pure () : Action Unit)) hx
    refine ⟨?_, hs⟩
    rw [failure?_eq_none_iff.mpr ⟨a, hx⟩, failure?_eq_none_iff.mpr ⟨(), ho⟩]
  | error g =>
    obtain ⟨ho, hs⟩ := bind_of_error (f := fun _ => (pure () : Action Unit)) hx
    refine ⟨?_, hs⟩
    rw [failure?_eq_some_iff.mpr hx, failure?_eq_some_iff.mpr ho]

end Action

/-! ## Fragments by themselves -/

/-- Runs a fragment by itself: an expression is evaluated and formatted, a condition is tested. -/
def Probe.run (ev : Evaluator) (scope : Bindings) : Probe → Action Unit
  | .expression e => do
    let v ← ev.evaluate e.source scope
    let _ ← ev.format v e.spec
  | .condition source _ => do
    let _ ← ev.test source scope

/-- The stores that a rendering from `s` on can come to: texts have been written to its sink, and
fragments have gone through by themselves. -/
inductive Later (ev : Evaluator) (sink : Nat) (scope : Bindings) (probes : List Probe) (s : Store) :
    Store → Prop where
  | start : Later ev sink scope probes s s
  | write {t : Store} (h : Later ev sink scope probes s t) (text : String) :
      Later ev sink scope probes s (t.append sink text)
  | run {t : Store} (h : Later ev sink scope probes s t) {p : Probe} (hp : p ∈ probes)
      (hok : (p.run ev scope).failure? t = none) :
      Later ev sink scope probes s (p.run ev scope t).store

/-- The fragments have no side effect that another one could notice: each of them fails in such a
store as it fails at the start, or does not fail at all. -/
def Independent (ev : Evaluator) (sink : Nat) (scope : Bindings) (probes : List Probe)
    (s : Store) : Prop :=
  ∀ t, Later ev sink scope probes s t → ∀ p ∈ probes,
    (p.run ev scope).failure? t = (p.run ev scope).failure? s

namespace Render

section

variable (r : Rendering) (scope : Bindings) (s : Store)

/-- The failure of a fragment by itself, located at its node. -/
def own? (p : Probe) : Option Failure :=
  ((p.run r.evaluator scope).failure? s).map (.locate r.source p.pos)

/-- The failure of the first fragment that fails by itself. -/
def first? (ps : List Probe) : Option Failure := ps.findSome? (own? r scope s)

end

/-- A run that tries the fragments `ps` one after the other: where it starts in a store that the
rendering can come to, it fails as the first of them does, or succeeds and leaves such a store. -/
structure Tries (r : Rendering) (scope : Bindings) (probes : List Probe) (s : Store) {α : Type}
    (ps : List Probe) (x : Action α) : Prop where
  fails : ∀ {t f}, Later r.evaluator r.sink scope probes s t → first? r scope s ps = some f →
    (x t).outcome = .error f
  ends : ∀ {t}, Later r.evaluator r.sink scope probes s t → first? r scope s ps = none →
    ∃ a u, x.Ends t (.ok a) u ∧ Later r.evaluator r.sink scope probes s u

variable {r : Rendering} {scope : Bindings} {probes : List Probe} {s : Store} {α β : Type}
  {ps qs : List Probe}

theorem tries_pure (a : α) : Tries r scope probes s [] (pure a : Action α) where
  fails _ h := by cases h
  ends ht _ := ⟨a, _, ⟨rfl, rfl⟩, ht⟩

theorem tries_write (text : String) : Tries r scope probes s [] (write r text) where
  fails _ h := by cases h
  ends ht _ := ⟨(), _, ⟨rfl, rfl⟩, ht.write text⟩

theorem Tries.bind {x : Action α} {f : α → Action β} (hx : Tries r scope probes s ps x)
    (hf : ∀ a, Tries r scope probes s qs (f a)) : Tries r scope probes s (ps ++ qs) (x >>= f) where
  fails {t g} ht h := by
    rw [first?, List.findSome?_append] at h
    -- A fragment of the first run comes before all those of the second.
    cases hps : ps.findSome? (own? r scope s) with
    | some g' =>
      rw [hps, Option.some_or] at h
      obtain rfl := Option.some.inj h
      exact (bind_of_error (hx.fails ht hps)).1
    | none =>
      rw [hps, Option.none_or] at h
      obtain ⟨a, u, hends, hu⟩ := hx.ends ht hps
      exact (hends.bind (f := f) ⟨(hf a).fails hu h, rfl⟩).1
  ends {t} ht h := by
    rw [first?, List.findSome?_append, Option.or_eq_none_iff] at h
    obtain ⟨a, u, hends, hu⟩ := hx.ends ht h.1
    obtain ⟨b, v, hends', hv⟩ := (hf a).ends hu h.2
    exact ⟨b, v, hends.bind hends', hv⟩

/-- What follows tries nothing more. -/
theorem Tries.then {x : Action α} {f : α → Action β} (hx : Tries r scope probes s ps x)
    (hf : ∀ a, Tries r scope probes s [] (f a)) : Tries r scope probes s ps (x >>= f) :=
  List.append_nil ps ▸ hx.bind hf

/-- A run that is the fragment, under the guard of the node that the fragment belongs to. -/
theorem tries_located (hi : Independent r.evaluator r.sink scope probes s) {p : Probe}
    (hp : p ∈ probes) {x : Action α}
    (hx : p.run r.evaluator scope = x >>= fun _ => pure ()) :
    Tries r scope probes s [p] (located r p.pos x) := by
  have hrun (t : Store) : (p.run r.evaluator scope).failure? t = x.failure? t
      ∧ (p.run r.evaluator scope t).store = (x t).store := hx ▸ failure?_discard x t
  have hfirst : first? r scope s [p] = own? r scope s p := by
    rw [first?, List.findSome?_singleton]
  constructor
  · intro t f ht h
    rw [hfirst, own?, Option.map_eq_some_iff] at h
    obtain ⟨g, hg, rfl⟩ := h
    rw [← hi t ht p hp, (hrun t).1, failure?_eq_some_iff] at hg
    exact (ends_located_error ⟨hg, rfl⟩).1
  · intro t ht h
    rw [hfirst, own?, Option.map_eq_none_iff, ← hi t ht p hp] at h
    obtain ⟨a, ha⟩ := failure?_eq_none_iff.mp ((hrun t).1 ▸ h)
    exact ⟨a, _, ends_located ⟨ha, rfl⟩, (hrun t).2 ▸ ht.run hp h⟩

/-! ## What nodes try -/

section Nodes

variable (hi : Independent r.evaluator r.sink scope probes s)
include hi

theorem tries_formatted {e : Expression} (h : .expression e ∈ probes) :
    Tries r scope probes s [.expression e] (formatted r e scope) :=
  tries_located hi h (bind_assoc _ _ _).symm

/-- In a context of the parser a value can always be escaped. -/
theorem tries_expression {e : Expression} (hc : e.context = .text ∨ e.context = .attr)
    (h : .expression e ∈ probes) :
    Tries r scope probes s [.expression e] (expression r e scope) := by
  refine (tries_formatted hi h).then fun text => ?_
  have hescaped : ∃ escaped', escaped e.context text = pure escaped' := by
    rcases hc with hc | hc <;> rw [hc] <;> exact ⟨_, rfl⟩
  obtain ⟨escaped', he⟩ := hescaped
  rw [he]
  exact tries_write escaped'

theorem tries_joinedParts {context : EscapeContext} {parts : List Part}
    (hw : ∀ part ∈ parts, part.WellFormed context)
    (h : probesOf (parts.flatMap Part.spots) ⊆ probes) :
    Tries r scope probes s (probesOf (parts.flatMap Part.spots)) (joinedParts r scope parts) := by
  induction parts with
  | nil => exact tries_pure ""
  | cons part rest ih =>
    obtain ⟨hpart, hrest⟩ := List.forall_mem_cons.mp hw
    rw [List.flatMap_cons, probesOf_append] at h ⊢
    obtain ⟨h, h'⟩ := List.append_subset.mp h
    cases hpart with
    | literal text => exact (ih hrest h').then fun _ => tries_pure _
    | expression hc =>
      exact (tries_formatted hi (h List.mem_cons_self)).bind fun _ =>
        (ih hrest h').then fun _ => tries_pure _

theorem tries_conditional (pos : Nat) {items : List (String × String)}
    (h : (Spot.conditions items pos).probes ⊆ probes) :
    Tries r scope probes s (Spot.conditions items pos).probes (conditional r pos scope items) := by
  induction items with
  | nil => exact tries_pure ()
  | cons item rest ih =>
    obtain ⟨text, condition⟩ := item
    obtain ⟨hitem, hrest⟩ := List.cons_subset.mp h
    have htest : Tries r scope probes s [.condition condition pos]
        (located r pos (r.evaluator.test condition scope)) := tries_located hi hitem rfl
    refine htest.bind fun taken => ?_
    cases taken with
    | true => exact (tries_write _).bind fun _ => ih hrest
    | false => exact ih hrest

theorem tries_concatenated {parts : List AttributeValue} (hw : ∀ part ∈ parts, part.Piece)
    (h : probesOf (AttributeValue.spotsAll parts) ⊆ probes) :
    Tries r scope probes s (probesOf (AttributeValue.spotsAll parts))
      (concatenated r scope parts) := by
  induction parts with
  | nil =>
    rw [concatenated]
    exact tries_pure ()
  | cons part rest ih =>
    obtain ⟨hpart, hrest⟩ := List.forall_mem_cons.mp hw
    rw [AttributeValue.spotsAll, probesOf_append] at h ⊢
    obtain ⟨h, h'⟩ := List.append_subset.mp h
    rw [concatenated]
    refine Tries.bind ?_ fun _ => ih hrest h'
    cases hpart with
    | literal text =>
      rw [attributeValue]
      exact tries_write _
    | expression hc =>
      rw [attributeValue]
      exact tries_expression hi (.inr hc) (h (by simp [AttributeValue.spots, probesOf, Spot.probes]))

theorem tries_attributeValue {v : AttributeValue} (hw : v.WellFormed) (hv : v.Plain)
    (h : probesOf v.spots ⊆ probes) :
    Tries r scope probes s (probesOf v.spots) (attributeValue r scope v) := by
  cases hw with
  | literal text =>
    rw [attributeValue]
    exact tries_write _
  | expression hc =>
    rw [attributeValue]
    exact tries_expression hi (.inr hc) (h (by simp [AttributeValue.spots, probesOf, Spot.probes]))
  | conditional items pos =>
    rw [AttributeValue.spots, probesOf, List.flatMap_singleton] at h ⊢
    rw [attributeValue]
    exact tries_conditional hi pos h
  | concat hp =>
    rw [AttributeValue.spots] at h ⊢
    rw [attributeValue]
    exact tries_concatenated hi hp h
  | closure => cases hv

theorem tries_attributes {as : List Attribute} (hw : ∀ a ∈ as, a.WellFormed)
    (hp : ∀ a ∈ as, a.Plain) (h : probesOf (as.flatMap Attribute.spots) ⊆ probes) :
    Tries r scope probes s (probesOf (as.flatMap Attribute.spots)) (attributes r scope as) := by
  induction as with
  | nil => exact tries_pure ()
  | cons a rest ih =>
    obtain ⟨ha, hrest⟩ := List.forall_mem_cons.mp hw
    obtain ⟨hpa, hprest⟩ := List.forall_mem_cons.mp hp
    rw [List.flatMap_cons, probesOf_append] at h ⊢
    obtain ⟨h, h'⟩ := List.append_subset.mp h
    have htail := ih hrest hprest h'
    obtain ⟨name, value⟩ := a
    refine (tries_write _).bind fun _ => ?_
    cases value with
    | none => exact htail
    | some v =>
      exact (tries_write _).bind fun _ => (tries_attributeValue hi (ha v rfl) (hpa v rfl) h).bind
        fun _ => (tries_write _).bind fun _ => htail

theorem tries_startTag (name : String) {as : List Attribute} (hw : ∀ a ∈ as, a.WellFormed)
    (hp : ∀ a ∈ as, a.Plain) (h : probesOf (as.flatMap Attribute.spots) ⊆ probes)
    (selfClosing : Bool) :
    Tries r scope probes s (probesOf (as.flatMap Attribute.spots))
      (startTag r scope name as selfClosing) :=
  (tries_write _).bind fun _ => (tries_attributes hi hw hp h).then fun _ => tries_write _

omit hi in
/-- A node of markup leaves the variables to the next one as they are. -/
theorem tries_nodes_of_forall {ns : List Node} (hm : ∀ n ∈ ns, n.Markup)
    (ht : ∀ n ∈ ns, Tries r scope probes s (probesOf n.spots) (node r scope n)) :
    Tries r scope probes s (probesOf (Node.spotsAll ns)) (nodes r scope ns) := by
  induction ns with
  | nil =>
    rw [nodes]
    exact tries_pure scope
  | cons n rest ih =>
    obtain ⟨hn, hm⟩ := List.forall_mem_cons.mp hm
    obtain ⟨hfirst, ht⟩ := List.forall_mem_cons.mp ht
    have hscope : nodes r scope (n :: rest) = node r scope n >>= fun _ => nodes r scope rest := by
      rw [nodes]
      exact (answers_node hn.isBinding_eq).bind_congr fun b hb => by rw [hb]
    rw [hscope, Node.spotsAll, probesOf_append]
    exact hfirst.bind fun _ => ih hm ht

/-- A node of markup tries its fragments: the attributes of an element before its children. -/
theorem tries_node {n : Node} (hm : n.Markup) (hw : n.WellFormed)
    (h : probesOf n.spots ⊆ probes) :
    Tries r scope probes s (probesOf n.spots) (node r scope n) := by
  induction hm with
  | text | doctype | instruction =>
    rw [node]
    exact (tries_write _).then fun _ => tries_pure scope
  | expression e =>
    cases hw with
    | expression hc =>
      rw [node]
      exact (tries_expression hi (.inl hc) (h List.mem_cons_self)).then fun _ => tries_pure scope
  | comment parts | cdata parts =>
    cases hw with
    | _ hw =>
      rw [Node.spots] at h ⊢
      rw [node]
      exact (tries_joinedParts hi hw h).then fun _ => (tries_write _).then fun _ => tries_pure scope
  | element ha hc ih =>
    rw [Node.spots, probesOf_append] at h ⊢
    obtain ⟨htag, hchildren⟩ := List.append_subset.mp h
    rw [node_element]
    cases hw with
    | void hw => exact (tries_startTag hi _ hw ha htag true).bind fun _ => tries_pure scope
    | element hw hwc =>
      have hnodes := tries_nodes_of_forall hc fun child hchild =>
        ih child hchild (hwc child hchild) fun p hp => hchildren (mem_probesOf_spotsAll hchild hp)
      exact (tries_startTag hi _ hw ha htag false).bind fun _ => hnodes.then fun _ =>
        (tries_write _).then fun _ => tries_pure scope

theorem tries_nodes {ns : List Node} (hm : ∀ n ∈ ns, n.Markup) (hw : ∀ n ∈ ns, n.WellFormed)
    (h : probesOf (Node.spotsAll ns) ⊆ probes) :
    Tries r scope probes s (probesOf (Node.spotsAll ns)) (nodes r scope ns) :=
  tries_nodes_of_forall hm fun n hn => tries_node hi (hm n hn) (hw n hn) fun _ hp =>
    h (mem_probesOf_spotsAll hn hp)

end Nodes

end Render

/-- A fragment that cannot be read fails in every store alike. -/
theorem Probe.failure?_unreadable {level : Nat} {globals scope : Bindings} {e : Expression}
    (hread : Host.Expr.ofSource? e.source.toList = none)
    (hnull : e.source.toList.contains '\x00' = false) (s : Store) :
    ((Probe.expression e).run ⟨Host.language level, globals⟩ scope).failure? s
      = some (.during .evaluate e.source (.host ⟨.malformed, none⟩)) := by
  have hfail : (⟨Host.language level, globals⟩ : Evaluator).evaluate e.source scope
      = Action.fail (.during .evaluate e.source (.host ⟨.malformed, none⟩)) := by
    show (Host.evaluate _ _ _).mapFailure _ = _
    simp only [Host.evaluate, Host.reading, hnull, hread, Bool.false_eq_true, if_false]
    rfl
  rw [failure?_eq_some_iff, run, hfail]
  rfl

/-! ## The law -/

section

variable {ev : Evaluator} {sink : Nat} {scope : Bindings} {s : Store} {text : List Char}
  {doc : Document}

/-- A parsed document of markup tries its fragments. -/
theorem Document.tries (h : Document.ofText? text = .ok doc) (hm : ∀ n ∈ doc.nodes, n.Markup)
    (hi : Independent ev sink scope doc.probes s) :
    Render.Tries ⟨ev, sink, text⟩ scope doc.probes s doc.probes
      (Render.document ev sink doc scope) := by
  obtain rfl : doc.source = text := (ofText?_ok_iff.mp h).2
  exact (Render.tries_nodes (r := ⟨ev, sink, doc.source⟩) hi hm (Document.nodes_wellFormed h)
    (List.Subset.refl _)).then fun _ => Render.tries_pure ()

/-- A text, not empty, whose document is markup and whose fragments run independently of each other:
all its fragments are listed, in the order in which they stand in the text. The document renders
exactly when none of them fails by itself, and otherwise it fails as the first one does that fails;
an evaluation or a format error without a place is put at the position of the node of that one. -/
theorem first_failure (hne : text ≠ []) (h : Document.ofText? text = .ok doc)
    (hm : ∀ n ∈ doc.nodes, n.Markup) (hi : Independent ev sink scope doc.probes s) :
    doc.spots.flatMap Spot.fragments = doc.probes.map Probe.fragment
      ∧ Along (fun p a b => Text.slice text a b = p.source.toList) 0 doc.probes text.length
      ∧ ((∃ t, (Render.document ev sink doc scope).Ends s (.ok ()) t)
        ↔ ∀ p ∈ doc.probes, (p.run ev scope).failure? s = none)
      ∧ ∀ before p after f, doc.probes = before ++ p :: after →
        (∀ q ∈ before, (q.run ev scope).failure? s = none) →
        (p.run ev scope).failure? s = some f →
        (Render.document ev sink doc scope s).outcome = .error (f.locate text p.pos)
          ∧ ∀ kind message, kind = .evaluation ∨ kind = .formatSpec →
            f = .template (.unlocated kind message) →
            f.locate text p.pos = .template (.located kind message p.pos (some text)) := by
  have htries := Document.tries h hm hi
  have hfirst (f : Failure) (hs : Render.first? ⟨ev, sink, text⟩ scope s doc.probes = some f) :
      (Render.document ev sink doc scope s).outcome = .error f := htries.fails .start hs
  have hnone : Render.first? ⟨ev, sink, text⟩ scope s doc.probes = none
      ↔ ∀ p ∈ doc.probes, (p.run ev scope).failure? s = none := by
    simp only [Render.first?, List.findSome?_eq_none_iff, Render.own?, Option.map_eq_none_iff]
  refine ⟨doc.fragments_eq_probes hm, Document.probes_along h hm, ⟨?_, ?_⟩, ?_⟩
  · rintro ⟨t, ho, -⟩
    refine hnone.mp (Option.eq_none_iff_forall_ne_some.mpr fun f hs => ?_)
    cases ho.symm.trans (hfirst f hs)
  · intro hall
    obtain ⟨⟨⟩, t, hends, -⟩ := htries.ends .start (hnone.mpr hall)
    exact ⟨t, hends⟩
  · intro before p after f hprobes hbefore hp
    refine ⟨hfirst _ ?_, fun kind message hkind hf => hf ▸ if_pos ⟨hkind, hne⟩⟩
    have hskip : before.findSome? (Render.own? ⟨ev, sink, text⟩ scope s) = none :=
      List.findSome?_eq_none_iff.mpr fun q hq => by rw [Render.own?, hbefore q hq, Option.map_none]
    rw [Render.first?, hprobes, List.findSome?_append, hskip, Option.none_or]
    simp only [List.findSome?_cons, Render.own?, hp, Option.map_some]

/-- In a comment a name with a value, and then two fragments that cannot be read. -/
theorem first_failure_unreadable :
    ∃ doc : Document, Document.ofText? "<!--\x7bx\x7d-->\x7b+\x7d\x7b*\x7d".toList = .ok doc
      ∧ doc.probes.map Probe.source = ["x", "+", "*"]
      ∧ (Render.document ⟨Host.language 3, []⟩ 0 doc [("x", .bool true)] Store.empty).outcome
        = .error (.template (.located .evaluation
          "Failed to evaluate expression '+': SyntaxError" 10
          (some "<!--\x7bx\x7d-->\x7b+\x7d\x7b*\x7d".toList))) := by
  have hdoc : Document.ofText? "<!--\x7bx\x7d-->\x7b+\x7d\x7b*\x7d".toList
      = .ok ⟨[.comment [.expression ⟨"x", none, .comment, 4⟩], .expression ⟨"+", none, .text, 10⟩,
        .expression ⟨"*", none, .text, 13⟩], "<!--\x7bx\x7d-->\x7b+\x7d\x7b*\x7d".toList⟩ := by cbv
  have hmarkup : ∀ n ∈ [Node.comment [.expression ⟨"x", none, .comment, 4⟩],
      .expression ⟨"+", none, .text, 10⟩, .expression ⟨"*", none, .text, 13⟩], n.Markup := by
    simp only [List.forall_mem_cons]
    exact ⟨.comment _, .expression _, .expression _, by simp⟩
  have hx (t : Store) : ((Probe.expression ⟨"x", none, .comment, 4⟩).run ⟨Host.language 3, []⟩
      [("x", .bool true)]).failure? t = none := by
    have hread : Host.Expr.ofSource? "x".toList = some (.name "x") := by cbv
    have hstill : ((⟨Host.language 3, []⟩ : Evaluator).evaluate "x" [("x", .bool true)]).Still
        (.bool true) t := Host.still_name hread (by decide) (by decide) rfl t
    exact failure?_eq_none_iff.mpr ⟨(), (Ends.bind hstill ⟨rfl, rfl⟩).1⟩
  have hplus (t : Store) : ((Probe.expression ⟨"+", none, .text, 10⟩).run ⟨Host.language 3, []⟩
      [("x", .bool true)]).failure? t = some (.during .evaluate "+" (.host ⟨.malformed, none⟩)) :=
    Probe.failure?_unreadable (by cbv) (by decide) t
  have htimes (t : Store) : ((Probe.expression ⟨"*", none, .text, 13⟩).run ⟨Host.language 3, []⟩
      [("x", .bool true)]).failure? t = some (.during .evaluate "*" (.host ⟨.malformed, none⟩)) :=
    Probe.failure?_unreadable (by cbv) (by decide) t
  have hindependent : Independent ⟨Host.language 3, []⟩ 0 [("x", .bool true)]
      [.expression ⟨"x", none, .comment, 4⟩, .expression ⟨"+", none, .text, 10⟩,
        .expression ⟨"*", none, .text, 13⟩] Store.empty := by
    simp only [Independent, List.forall_mem_cons]
    exact fun t _ => ⟨(hx t).trans (hx _).symm, (hplus t).trans (hplus _).symm,
      (htimes t).trans (htimes _).symm, by simp⟩
  obtain ⟨-, -, -, hfails⟩ := first_failure (by decide) hdoc hmarkup hindependent
  obtain ⟨hfail, hplace⟩ := hfails [_] _ [_] _ rfl (List.forall_mem_singleton.mpr (hx _))
    (hplus _)
  exact ⟨_, hdoc, rfl, hfail.trans (congrArg _ (hplace _ _ (.inl rfl) rfl))⟩

end

end MarkupTemplate
