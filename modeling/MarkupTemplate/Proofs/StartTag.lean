import MarkupTemplate.Proofs.Action

/-!
# Start tags of a rendering

A rendering that keeps the start tags that it writes, from `<` and the name to the closing sign. It
writes what the rendering writes.

* `Render.startTag`: writes a start tag.
* `Render.startTags`: writes a document and answers its start tags, in order.
* `Render.startTags_erase`: without what it answers, it is the rendering of the document.
-/
namespace MarkupTemplate

/-- Runs and answers the text that was put behind the output of a sink. -/
def Action.written (sink : Nat) (x : Action Unit) : Action String := do
  let before ← Action.output sink
  x
  let after ← Action.output sink
  return String.ofList (after.toList.drop before.toList.length)

namespace Render

/-- Writes the start tag of an element. -/
def startTag (r : Rendering) (scope : Bindings) (name : String) (attrs : List Attribute)
    (selfClosing : Bool) : Action Unit := do
  write r ("<" ++ name)
  attributes r scope attrs
  write r (if selfClosing then " />" else ">")

/-- An element is its start tag and, unless that closes it, its children and its closing tag. -/
theorem node_element (r : Rendering) (scope : Bindings) (name : String) (attrs : List Attribute)
    (selfClosing : Bool) (children : List Node) (closeName : Option String) :
    node r scope (.element name attrs selfClosing children closeName) = do
      startTag r scope name attrs selfClosing
      if selfClosing then return scope
      else
        let _ ← nodes r scope children
        write r ("</" ++ closingName name closeName ++ ">")
        return scope := by
  rw [node, startTag]
  cases selfClosing <;> simp only [bind_assoc, Bool.false_eq_true, if_false, if_true]

mutual

/-- Writes a node and answers the start tags of the elements that it is made of, and the variables
that are then bound. -/
def nodeTags (r : Rendering) (scope : Bindings) : Node → Action (List String × Bindings)
  | .element name attrs selfClosing children closeName => do
    let tag ← Action.written r.sink (startTag r scope name attrs selfClosing)
    if selfClosing then return ([tag], scope)
    else
      let (inner, _) ← nodesTags r scope children
      write r ("</" ++ closingName name closeName ++ ">")
      return (tag :: inner, scope)
  | n => do
    let b ← node r scope n
    return ([], b)

/-- Writes nodes and answers their start tags, and the variables that are then bound. -/
def nodesTags (r : Rendering) (scope : Bindings) : List Node → Action (List String × Bindings)
  | [] => pure ([], scope)
  | n :: rest => do
    let (first, b) ← nodeTags r scope n
    let (others, b) ← nodesTags r b rest
    return (first ++ others, b)

end

/-- Writes a document and answers its start tags. -/
def startTags (ev : Evaluator) (sink : Nat) (d : Document) (scope : Bindings) :
    Action (List String) := do
  let (tags, _) ← nodesTags ⟨ev, sink, d.source⟩ scope d.nodes
  return tags

/-- The text that a run answers to have written holds the characters that the run shows. -/
theorem answers_written {sink : Nat} {p : Char → Bool} {m : List Char} {x : Action Unit}
    (h : Action.Shows sink p x m) :
    Action.Answers (Action.written sink x) fun t => t.toList.filter p = m := by
  intro s text ho
  obtain ⟨before, hbefore, ho, -⟩ := Action.bind_eq_ok ho
  obtain ⟨⟨⟩, hx, ho, -⟩ := Action.bind_eq_ok ho
  obtain ⟨after, hafter, ho, -⟩ := Action.bind_eq_ok ho
  obtain ⟨t, ht, hm⟩ := h _ _ hx
  have ht : _ = s.output sink ++ t := ht
  cases hbefore
  cases hafter
  cases ho
  rw [ht, String.toList_append, List.drop_left, String.toList_ofList, hm]

/-! ## Erasure -/

theorem output_bind {α : Type} (sink : Nat) (x : Action α) :
    (Action.output sink >>= fun _ => x) = x := by
  funext s
  rfl

theorem written_bind {α : Type} (sink : Nat) (x : Action Unit) (y : Action α) :
    (Action.written sink x >>= fun _ => y) = x >>= fun _ => y := by
  simp only [Action.written, bind_assoc, pure_bind, output_bind]

mutual

theorem nodeTags_erase (r : Rendering) (scope : Bindings) : (n : Node) →
    (nodeTags r scope n >>= fun x => pure x.2) = node r scope n
  | .element name attrs selfClosing children closeName => by
    have hchildren := nodesTags_erase r scope children
    rw [nodeTags, node_element, ← hchildren]
    cases selfClosing with
    | true => simp only [if_true, bind_assoc, pure_bind, written_bind]
    | false => simp only [Bool.false_eq_true, if_false, bind_assoc, pure_bind, written_bind]
  | .text _ => by simp [nodeTags]
  | .expression _ => by simp [nodeTags]
  | .closure _ => by simp [nodeTags]
  | .doctype _ => by simp [nodeTags]
  | .instruction _ => by simp [nodeTags]
  | .comment _ => by simp [nodeTags]
  | .cdata _ => by simp [nodeTags]
  | .binding .. => by simp [nodeTags]
  | .choice .. => by simp [nodeTags]
  | .selection .. => by simp [nodeTags]
  | .loop .. => by simp [nodeTags]
  | .unsupported _ => by simp [nodeTags]

theorem nodesTags_erase (r : Rendering) (scope : Bindings) : (ns : List Node) →
    (nodesTags r scope ns >>= fun x => pure x.2) = nodes r scope ns
  | [] => by rw [nodesTags, nodes, pure_bind]
  | n :: rest => by
    rw [nodesTags, nodes, ← nodeTags_erase r scope n]
    simp only [bind_assoc, pure_bind]
    refine bind_congr fun x => ?_
    exact nodesTags_erase r x.2 rest

end

theorem startTags_erase (ev : Evaluator) (sink : Nat) (d : Document) (scope : Bindings) :
    (startTags ev sink d scope >>= fun _ => pure ()) = document ev sink d scope := by
  rw [startTags, document, ← nodesTags_erase]
  simp only [bind_assoc, pure_bind]

end Render

end MarkupTemplate
