import MarkupTemplate.Host.Run
import MarkupTemplate.Proofs.Nesting
import MarkupTemplate.Proofs.Skeleton

/-!
# Values and markup

Values do not change the markup of a plain document: two renderings of it write the same `<` and
`>`, and start tags with the same quotes, whatever the variables are. A fragment can still write to
the output itself, when the variables lead to a writer of it, which a closure got and handed on;
what it writes is not escaped. So the renderings are those in which none does.

* `Rendering.sealed`: a rendering whose fragments may not write to its sink.
* `Render.refines_nodesTags`: a sealed rendering does what the rendering does, or fails.
* `Render.exists_markup`: a rendering has the markup of the skeleton of its document.
* `markup_of_values`: two renderings of one document have the same markup.
* `not_markup_of_writer`: they need not when a variable writes to the output.
-/
namespace MarkupTemplate

open MarkupTemplate.Action Cursor Node

/-- The rendering, whose fragments may not write to its sink. -/
def Rendering.sealed (r : Rendering) : Rendering :=
  { r with evaluator := r.evaluator.sealed r.sink }

namespace Render

variable {r : Rendering}

/-! ## Sealed renderings -/

theorem refines_formatted (e : Expression) (scope : Bindings) :
    Refines (formatted r.sealed e scope) (formatted r e scope) :=
  Refines.mapFailure <| (Evaluator.refines_evaluate e.source scope).bind fun v =>
    Evaluator.refines_format v e.spec

theorem refines_expression (e : Expression) (scope : Bindings) :
    Refines (expression r.sealed e scope) (expression r e scope) :=
  (refines_formatted e scope).bind fun _ => .refl _

theorem refines_conditional (pos : Nat) (scope : Bindings) (items : List (String × String)) :
    Refines (conditional r.sealed pos scope items) (conditional r pos scope items) := by
  induction items with
  | nil => exact .refl _
  | cons item items ih =>
    obtain ⟨text, condition⟩ := item
    have htest : Refines (located r.sealed pos (r.sealed.evaluator.test condition scope))
        (located r pos (r.evaluator.test condition scope)) :=
      (Evaluator.refines_test condition scope).mapFailure
    rw [conditional, conditional]
    refine htest.bind fun b => ?_
    cases b with
    | true => exact (Refines.refl _).bind fun _ => ih
    | false => exact ih

theorem refines_concatenated {scope : Bindings} {parts : List AttributeValue}
    (h : ∀ part ∈ parts,
      Refines (attributeValue r.sealed scope part) (attributeValue r scope part)) :
    Refines (concatenated r.sealed scope parts) (concatenated r scope parts) := by
  induction parts with
  | nil =>
    rw [concatenated, concatenated]
    exact .refl _
  | cons part parts ih =>
    obtain ⟨hpart, h⟩ := List.forall_mem_cons.mp h
    rw [concatenated, concatenated]
    exact hpart.bind fun _ => ih h

theorem refines_attributeValue {v : AttributeValue} (hv : v.Plain) (scope : Bindings) :
    Refines (attributeValue r.sealed scope v) (attributeValue r scope v) := by
  induction hv with
  | literal text =>
    rw [attributeValue, attributeValue]
    exact .refl _
  | expression e =>
    rw [attributeValue, attributeValue]
    exact refines_expression e scope
  | conditional items pos =>
    rw [attributeValue, attributeValue]
    exact refines_conditional pos scope items
  | concat _ ih =>
    rw [attributeValue, attributeValue]
    exact refines_concatenated ih

theorem refines_attributes (scope : Bindings) {as : List Attribute} (h : ∀ a ∈ as, a.Plain) :
    Refines (attributes r.sealed scope as) (attributes r scope as) := by
  induction as with
  | nil => exact .refl _
  | cons a as ih =>
    obtain ⟨ha, has⟩ := List.forall_mem_cons.mp h
    have hrest := ih has
    obtain ⟨name, value⟩ := a
    rw [attributes, attributes]
    refine (Refines.refl _).bind fun _ => ?_
    cases value with
    | none => exact hrest
    | some v =>
      exact (Refines.refl _).bind fun _ => (refines_attributeValue (ha v rfl) scope).bind fun _ =>
        (Refines.refl _).bind fun _ => hrest

theorem refines_written {sink : Nat} {x y : Action Unit} (h : Refines x y) :
    Refines (written sink x) (written sink y) :=
  (Refines.refl _).bind fun _ => h.bind fun _ => .refl _

theorem refines_startTag (scope : Bindings) (name : String) {as : List Attribute}
    (h : ∀ a ∈ as, a.Plain) (selfClosing : Bool) :
    Refines (startTag r.sealed scope name as selfClosing) (startTag r scope name as selfClosing) :=
  (Refines.refl _).bind fun _ => (refines_attributes scope h).bind fun _ => .refl _

theorem refines_nodesTags_of_forall {ns : List Node}
    (h : ∀ n ∈ ns, ∀ scope, Refines (nodeTags r.sealed scope n) (nodeTags r scope n))
    (scope : Bindings) : Refines (nodesTags r.sealed scope ns) (nodesTags r scope ns) := by
  induction ns generalizing scope with
  | nil =>
    rw [nodesTags, nodesTags]
    exact .refl _
  | cons n ns ih =>
    obtain ⟨hn, h⟩ := List.forall_mem_cons.mp h
    rw [nodesTags, nodesTags]
    exact (hn scope).bind fun x => (ih h x.2).bind fun _ => .refl _

theorem refines_nodeTags {n : Node} (h : n.Plain) (scope : Bindings) :
    Refines (nodeTags r.sealed scope n) (nodeTags r scope n) := by
  induction h generalizing scope with
  | @element name as selfClosing children closeName ha _ ih =>
    rw [nodeTags, nodeTags]
    refine (refines_written (refines_startTag scope name ha selfClosing)).bind fun tag => ?_
    cases selfClosing with
    | true => exact .refl _
    | false => exact (refines_nodesTags_of_forall ih scope).bind fun _ => .refl _
  | expression e =>
    have hnode : Refines (node r.sealed scope (.expression e)) (node r scope (.expression e)) := by
      rw [node, node]
      exact (refines_expression e scope).bind fun _ => .refl _
    rw [nodeTags, nodeTags]
    · exact hnode.bind fun _ => .refl _
    · simp
    · simp
  | binding pattern value pos =>
    have hnode : Refines (node r.sealed scope (.binding pattern value pos))
        (node r scope (.binding pattern value pos)) := by
      rw [node, node]
      exact Refines.mapFailure <| (Evaluator.refines_evaluate value scope).bind fun v =>
        (Evaluator.refines_bind pattern v scope).bind fun _ => .refl _
    rw [nodeTags, nodeTags]
    · exact hnode.bind fun _ => .refl _
    · simp
    · simp
  | text | doctype | instruction =>
    rw [nodeTags, nodeTags]
    · rw [node, node]
      exact .refl _
    · simp
    · simp

theorem refines_nodesTags {ns : List Node} (h : ∀ n ∈ ns, n.Plain) (scope : Bindings) :
    Refines (nodesTags r.sealed scope ns) (nodesTags r scope ns) :=
  refines_nodesTags_of_forall (fun n hn => refines_nodeTags (h n hn)) scope

/-! ## Two renderings -/

/-- A rendering of a document completes, and writes an output with some start tags. -/
structure Writes (ev : Evaluator) (sink : Nat) (doc : Document) (scope : Bindings) (s : Store)
    (out : String) (tags : List String) : Prop where
  completes : (document ev sink doc scope s).outcome = .ok ()
  output : (document ev sink doc scope s).store.output sink = s.output sink ++ out
  tags : (startTags ev sink doc scope s).outcome = .ok tags

/-- A rendering whose fragments do not write to its sink has the markup of the skeleton. -/
theorem exists_markup {doc : Document} (hn : ∀ n ∈ doc.nodes, n.Plain)
    (hc : ∀ n ∈ doc.nodes, n.InContext) {ev : Evaluator} {sink : Nat} {scope : Bindings} {s : Store}
    (h : (document (ev.sealed sink) sink doc scope s).outcome = .ok ()) :
    ∃ out tags, Writes ev sink doc scope s out tags
      ∧ out.toList.filter isAngle = (Node.skeletonAll doc.nodes).toList.filter isAngle
      ∧ delimiters tags = delimiters (Node.skeletonTagsAll doc.nodes) := by
  have hdiscreet := ev.language.discreet_sealed sink
  have hshows : Shows sink isAngle (document (ev.sealed sink) sink doc scope) _ :=
    (shows_nodes (r := ⟨ev.sealed sink, sink, doc.source⟩) hdiscreet hn hc scope).bind
      fun _ => shows_pure
  have hanswers : Answers (startTags (ev.sealed sink) sink doc scope)
      fun tags => delimiters tags = delimiters (Node.skeletonTagsAll doc.nodes) :=
    (answers_nodesTags (r := ⟨ev.sealed sink, sink, doc.source⟩) hdiscreet hn hc scope).bind
      fun _ hx => answers_pure hx
  have hrefines : Refines (startTags (ev.sealed sink) sink doc scope)
      (startTags ev sink doc scope) :=
    (refines_nodesTags (r := ⟨ev, sink, doc.source⟩) hn scope).bind fun _ => .refl _
  have hdoc : Refines (document (ev.sealed sink) sink doc scope) (document ev sink doc scope) := by
    rw [← startTags_erase, ← startTags_erase]
    exact hrefines.bind fun _ => .refl _
  obtain ⟨out, hout, hm⟩ := hshows s () h
  obtain ⟨hok, hstore⟩ := hdoc s () h
  rw [← startTags_erase] at h
  obtain ⟨tags, htags, -⟩ := bind_eq_ok h
  refine ⟨out, tags, ⟨hok, ?_, (hrefines s tags htags).1⟩, ?_, hanswers s tags htags⟩
  · rw [hstore, hout]
  · rw [hm, List.append_nil]

end Render

/-- Values open and close no tags and no attributes: two renderings of a text that parses to plain
nodes, each with variables of its own and none of whose fragments writes to the output itself,
complete with outputs of the same angles, and with start tags of the same delimiters. -/
theorem markup_of_values {text : List Char} {doc : Document}
    (hdoc : Document.ofText? text = .ok doc)
    (hplain : ∀ n ∈ doc.nodes, n.Plain) {ev₁ ev₂ : Evaluator} {sink₁ sink₂ : Nat}
    {scope₁ scope₂ : Bindings} {s₁ s₂ : Store}
    (h₁ : (Render.document (ev₁.sealed sink₁) sink₁ doc scope₁ s₁).outcome = .ok ())
    (h₂ : (Render.document (ev₂.sealed sink₂) sink₂ doc scope₂ s₂).outcome = .ok ()) :
    ∃ out₁ tags₁ out₂ tags₂, Render.Writes ev₁ sink₁ doc scope₁ s₁ out₁ tags₁
      ∧ Render.Writes ev₂ sink₂ doc scope₂ s₂ out₂ tags₂
      ∧ out₁.toList.filter isAngle = out₂.toList.filter isAngle
      ∧ tags₁.map (·.toList.filter isDelimiter) = tags₂.map (·.toList.filter isDelimiter) := by
  have hcontext := inContext_of_ofText? hdoc
  obtain ⟨out₁, tags₁, hw₁, ho₁, ht₁⟩ := Render.exists_markup hplain hcontext h₁
  obtain ⟨out₂, tags₂, hw₂, ho₂, ht₂⟩ := Render.exists_markup hplain hcontext h₂
  exact ⟨out₁, tags₁, out₂, tags₂, hw₁, hw₂, ho₁.trans ho₂.symm, ht₁.trans ht₂.symm⟩

/-- A value that would open a tag, and one that is empty. -/
theorem markup_of_values_element :
    ∃ doc out₁ tags₁ out₂ tags₂,
      Document.ofText? (("<" ++ "p" ++ ">").toList ++ "\x7bx\x7d".toList
        ++ ("</" ++ "p" ++ ">").toList) = .ok doc
      ∧ Render.Writes ⟨Host.language 4, []⟩ 0 doc [("x", .str "<")] Store.empty out₁ tags₁
      ∧ Render.Writes ⟨Host.language 4, []⟩ 0 doc [("x", .str "")] Store.empty out₂ tags₂
      ∧ out₁.toList.filter isAngle = out₂.toList.filter isAngle
      ∧ tags₁.map (·.toList.filter isDelimiter) = tags₂.map (·.toList.filter isDelimiter) := by
  have hx : Document.ofText? "\x7bx\x7d".toList
      = .ok ⟨[.expression ⟨"x", none, .text, 0⟩], "\x7bx\x7d".toList⟩ := by cbv
  have hyields : Yields readNode "\x7bx\x7d".toList [.expression ⟨"x", none, .text, 0⟩] :=
    ⟨⟨_, by cbv⟩, (Cursor.ofText "\x7bx\x7d".toList).skip 1, .cons (by cbv) .nil, by cbv⟩
  have hdoc := ofText?_element hx (closesElements_of_yields hyields) plainName_p plainName_p
  have hplain : ∀ n ∈ [Node.element "p" [] false [.expression ⟨"x", none, .text, 3⟩] (some "p")],
      n.Plain :=
    List.forall_mem_singleton.mpr (.element (by simp)
      (List.forall_mem_singleton.mpr (.expression _)))
  have h₁ : (Render.document ((⟨Host.language 4, []⟩ : Evaluator).sealed 0) 0
      ⟨[.element "p" [] false [.expression ⟨"x", none, .text, 3⟩] (some "p")],
        ("<" ++ "p" ++ ">").toList ++ "\x7bx\x7d".toList ++ ("</" ++ "p" ++ ">").toList⟩
      [("x", .str "<")] Store.empty).outcome = .ok () := by cbv
  have h₂ : (Render.document ((⟨Host.language 4, []⟩ : Evaluator).sealed 0) 0
      ⟨[.element "p" [] false [.expression ⟨"x", none, .text, 3⟩] (some "p")],
        ("<" ++ "p" ++ ">").toList ++ "\x7bx\x7d".toList ++ ("</" ++ "p" ++ ">").toList⟩
      [("x", .str "")] Store.empty).outcome = .ok () := by cbv
  obtain ⟨out₁, tags₁, out₂, tags₂, h⟩ := markup_of_values hdoc hplain h₁ h₂
  exact ⟨_, out₁, tags₁, out₂, tags₂, hdoc, h⟩

/-- A variable that writes to the output itself can write a tag: it is bound to the method of a
writer in one rendering, and to a function without effect in the other. -/
theorem not_markup_of_writer :
    ∃ doc, Document.ofText? "\x7bw(\"<\")\x7d".toList = .ok doc ∧ (∀ n ∈ doc.nodes, n.Plain)
      ∧ (Render.document ⟨Host.language 5, []⟩ 0 doc [("w", .method (.writer 0) .write)]
        Store.empty).outcome = .ok ()
      ∧ (Render.document ⟨Host.language 5, []⟩ 0 doc [("w", .constant 0 .none)]
        Store.empty).outcome = .ok ()
      ∧ ((Render.document ⟨Host.language 5, []⟩ 0 doc [("w", .method (.writer 0) .write)]
          Store.empty).store.output 0).toList.filter isAngle
        ≠ ((Render.document ⟨Host.language 5, []⟩ 0 doc [("w", .constant 0 .none)]
          Store.empty).store.output 0).toList.filter isAngle := by
  have htokens : tokensOf "\x7bw(\"<\")\x7d".toList = [.mk .brace "\x7b" 0 8 "w(\"<\")"
      [.flat .ident "w" 1 2, .mk .paren "(" 2 7 "\"<\"" [.flat .string "<" 3 6]]] := by
    rw [tokensOf, atomsOf_of_scan (by cbv)]
    cbv
  have hdoc : Document.ofText? "\x7bw(\"<\")\x7d".toList
      = .ok ⟨[.expression ⟨"w(\"<\")", none, .text, 0⟩], "\x7bw(\"<\")\x7d".toList⟩ := by
    refine ofText?_ok_iff.mpr ⟨⟨⟨_, by cbv⟩, ⟨"\x7bw(\"<\")\x7d".toList, 8, 1, []⟩, ?_, rfl⟩, rfl⟩
    rw [Cursor.ofText, htokens]
    refine .cons ?_ .nil
    rw [readItem, if_neg (by decide), readNode_eq]
    cbv
  have hrun : (Render.document ⟨Host.language 5, []⟩ 0
      ⟨[.expression ⟨"w(\"<\")", none, .text, 0⟩], "\x7bw(\"<\")\x7d".toList⟩
      [("w", .method (.writer 0) .write)] Store.empty).outcome = .ok ()
    ∧ (Render.document ⟨Host.language 5, []⟩ 0
      ⟨[.expression ⟨"w(\"<\")", none, .text, 0⟩], "\x7bw(\"<\")\x7d".toList⟩
      [("w", .method (.writer 0) .write)] Store.empty).store.output 0 = "<None" := by cbv
  have hrun' : (Render.document ⟨Host.language 5, []⟩ 0
      ⟨[.expression ⟨"w(\"<\")", none, .text, 0⟩], "\x7bw(\"<\")\x7d".toList⟩
      [("w", .constant 0 .none)] Store.empty).outcome = .ok ()
    ∧ (Render.document ⟨Host.language 5, []⟩ 0
      ⟨[.expression ⟨"w(\"<\")", none, .text, 0⟩], "\x7bw(\"<\")\x7d".toList⟩
      [("w", .constant 0 .none)] Store.empty).store.output 0 = "None" := by cbv
  refine ⟨_, hdoc, List.forall_mem_singleton.mpr (.expression _), hrun.1, hrun'.1, ?_⟩
  rw [hrun.2, hrun'.2]
  decide

end MarkupTemplate
