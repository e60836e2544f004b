import MarkupTemplate.Proofs.Action

/-!
# Sequences and scopes

Nodes are written one after the other. What follows some nodes sees the variables that they started
with and, over them, what the bindings that stand directly among them bind. Whatever else is bound
on the way, by a loop, a branch, an arm, a closure or inside an element, ends with its node.

* `Bindings.extend`: names bound over each other, one list of them after the other;
  `Bindings.get?_extend`: the last binding of a name counts.
* `Render.answers_node`: a node that is no binding leaves the variables alone.
* `Render.frames`: what the bindings that stand directly among some nodes bind.
* `Render.nodes_eq_frames`: nothing else is bound for what follows them.
* `Store.exists_output`: what a sink holds stays in front of what is written later.
* `document_append`: a document of two sequences is the first one and then the second.
-/
namespace MarkupTemplate

open MarkupTemplate.Action

namespace Bindings

/-- The names of several bindings, each bound over those before it and all over the given ones. -/
def extend (scope : Bindings) (frames : List Bindings) : Bindings :=
  frames.foldl (fun scope b => b.shadow scope) scope

@[simp] theorem extend_nil (scope : Bindings) : scope.extend [] = scope := rfl

@[simp] theorem extend_cons (scope b : Bindings) (frames : List Bindings) :
    scope.extend (b :: frames) = (b.shadow scope).extend frames := rfl

/-- The last binding of a name counts. -/
theorem get?_extend (scope : Bindings) (frames : List Bindings) (name : String) :
    (scope.extend frames).get? name
      = (frames.reverse.findSome? (·.get? name)).or (scope.get? name) := by
  induction frames generalizing scope with
  | nil => rfl
  | cons b frames ih =>
    rw [extend_cons, ih, get?_shadow, List.reverse_cons, List.findSome?_append, Option.or_assoc]
    congr 1
    simp only [List.findSome?_cons, List.findSome?_nil]
    cases b.get? name <;> rfl

end Bindings

/-- True of a node that binds names for those that follow it. -/
def Node.isBinding : Node → Bool
  | .binding .. => true
  | _ => false

namespace Render

variable {r : Rendering} {scope : Bindings}

/-! ## The variables behind a node -/

/-- A node that is no binding answers the variables that it was given. -/
theorem answers_node {n : Node} (h : n.isBinding = false) :
    Answers (node r scope n) (· = scope) := by
  cases n with
  | binding _ _ _ => cases h
  | text _ | expression _ | closure _ | doctype _ | instruction _ =>
    rw [node]
    exact answers_then_pure _
  | comment _ | cdata _ =>
    rw [node]
    exact (answers_true _).bind fun _ _ => answers_then_pure _
  | element _ _ selfClosing _ _ =>
    rw [node]
    refine (answers_true _).bind fun _ _ => (answers_true _).bind fun _ _ => ?_
    cases selfClosing with
    | true => exact answers_then_pure _
    | false =>
      exact (answers_true _).bind fun _ _ => (answers_true _).bind fun _ _ => answers_then_pure _
  | choice _ otherwise =>
    cases otherwise <;> rw [node] <;> exact answers_then_pure _
  | selection _ _ _ | loop _ _ _ _ =>
    rw [node]
    exact answers_then_pure _
  | unsupported _ =>
    rw [node]
    exact answers_fail _

/-- Runs a binding and answers the names that it binds. -/
def bound (r : Rendering) (scope : Bindings) (pattern value : String) (pos : Nat) :
    Action Bindings :=
  located r pos do
    let v ← r.evaluator.evaluate value scope
    r.evaluator.bind pattern v scope

/-- A binding answers its names, bound over the variables that it was given. -/
theorem node_binding (pattern value : String) (pos : Nat) :
    node r scope (.binding pattern value pos)
      = bound r scope pattern value pos >>= fun b => pure (b.shadow scope) := by
  simp only [node, bound, located, mapFailure_bind, mapFailure_pure, bind_assoc]

/-- Writes nodes and answers what the bindings that stand directly among them bind, in order. -/
def frames (r : Rendering) (scope : Bindings) : List Node → Action (List Bindings)
  | [] => pure []
  | .binding pattern value pos :: rest => do
    let b ← bound r scope pattern value pos
    return b :: (← frames r (b.shadow scope) rest)
  | n :: rest => do
    let _ ← node r scope n
    frames r scope rest

theorem frames_cons {n : Node} (h : n.isBinding = false) (rest : List Node) :
    frames r scope (n :: rest) = node r scope n >>= fun _ => frames r scope rest := by
  cases n with
  | binding _ _ _ => cases h
  | _ => simp only [frames]

/-- Nodes leave the variables that they started with, extended by what their own bindings bind. -/
theorem nodes_eq_frames (r : Rendering) (scope : Bindings) (ns : List Node) :
    nodes r scope ns = frames r scope ns >>= fun bs => pure (scope.extend bs) := by
  induction ns generalizing scope with
  | nil => rfl
  | cons n rest ih =>
    rw [nodes]
    -- Only a binding hands on other variables than it was given.
    cases hn : n.isBinding with
    | false =>
      rw [frames_cons hn, bind_assoc, ← ih]
      exact (answers_node hn).bind_congr fun b hb => by rw [hb]
    | true =>
      cases n with
      | binding pattern value pos =>
        simp only [node_binding, frames, bind_assoc, pure_bind, ih, Bindings.extend_cons]
      | _ => cases hn

/-- There is one list of names for every binding that stands directly among the nodes. -/
theorem answers_frames (r : Rendering) (scope : Bindings) (ns : List Node) :
    Answers (frames r scope ns) (·.length = ns.countP Node.isBinding) := by
  induction ns generalizing scope with
  | nil => exact answers_pure rfl
  | cons n rest ih =>
    cases hn : n.isBinding with
    | false =>
      rw [frames_cons hn, List.countP_cons_of_neg (by rw [hn]; decide)]
      exact (answers_true _).bind fun _ _ => ih scope
    | true =>
      rw [List.countP_cons_of_pos hn]
      cases n with
      | binding pattern value pos =>
        refine (answers_true _).bind fun b _ => (ih _).bind fun bs hbs => answers_pure ?_
        rw [List.length_cons, hbs]
      | _ => cases hn

/-- Nodes behind nodes are run with the variables that those answer. -/
theorem nodes_append (r : Rendering) (scope : Bindings) (a b : List Node) :
    nodes r scope (a ++ b) = nodes r scope a >>= fun scope' => nodes r scope' b := by
  induction a generalizing scope with
  | nil => rfl
  | cons n rest ih => simp only [List.cons_append, nodes, ih, bind_assoc]

variable (ev : Evaluator) (sink : Nat) (source : List Char)

/-- A document ends well when its bindings and what stands between them do. -/
theorem document_eq_frames (scope : Bindings) (a : List Node) :
    document ev sink ⟨a, source⟩ scope
      = frames ⟨ev, sink, source⟩ scope a >>= fun _ => pure () := by
  rw [document, nodes_eq_frames, bind_assoc]
  rfl

/-- A document of two sequences goes on after the first one with what that one binds. -/
theorem document_append_eq_frames (scope : Bindings) (a b : List Node) :
    document ev sink ⟨a ++ b, source⟩ scope
      = frames ⟨ev, sink, source⟩ scope a
          >>= fun bs => document ev sink ⟨b, source⟩ (scope.extend bs) := by
  rw [document, nodes_append, nodes_eq_frames, bind_assoc, bind_assoc]
  rfl

end Render

/-! ## What a sink holds -/

/-- Whatever is written later comes behind what a sink holds. -/
theorem Store.exists_output {s t : Store} (h : s.written <:+ t.written) (sink : Nat) :
    ∃ text, t.output sink = s.output sink ++ text := by
  obtain ⟨later, hl⟩ := h
  have hchunks : t.chunks sink = chunks { t with written := later } sink ++ s.chunks sink := by
    rw [chunks, chunks, chunks, ← hl, List.filterMap_append]
  refine ⟨output { t with written := later } sink, ?_⟩
  rw [output, output, output, hchunks, List.reverse_append, String.join_append]

/-! ## Two sequences -/

/-- A document of two sequences, the second behind the first. If the first fails, so do both, with
the same error in the same store. If the first ends well, the second is written behind it, with the
variables of the first extended by what the bindings that stand directly in the first bind. What a
sink holds is never changed. -/
theorem document_append (ev : Evaluator) (sink : Nat) (source : List Char) (a b : List Node)
    (scope : Bindings) (s : Store) :
    let first := Render.document ev sink ⟨a, source⟩ scope s
    let both := Render.document ev sink ⟨a ++ b, source⟩ scope s
    (∀ e, first.outcome = .error e → both.outcome = .error e ∧ both.store = first.store)
      ∧ (first.outcome = .ok () → ∃ frames,
          (Render.frames ⟨ev, sink, source⟩ scope a s).outcome = .ok frames
            ∧ (Render.frames ⟨ev, sink, source⟩ scope a s).store = first.store
            ∧ frames.length = a.countP Node.isBinding
            ∧ let second := Render.document ev sink ⟨b, source⟩ (scope.extend frames) first.store
              both.outcome = second.outcome ∧ both.store = second.store)
      ∧ ∀ k, ∃ t u, first.store.output k = s.output k ++ t
          ∧ both.store.output k = s.output k ++ t ++ u := by
  intro first both
  have hfirst : first = _ := congrFun (Render.document_eq_frames ev sink source scope a) s
  have hboth : both = _ := congrFun (Render.document_append_eq_frames ev sink source scope a b) s
  have hlen := Render.answers_frames ⟨ev, sink, source⟩ scope a s
  cases hf : (Render.frames ⟨ev, sink, source⟩ scope a s).outcome with
  | error e =>
    obtain ⟨ho, hs⟩ := bind_of_error (f := fun _ => (pure () : Action Unit)) hf
    obtain ⟨ho', hs'⟩ := bind_of_error
      (f := fun bs => Render.document ev sink ⟨b, source⟩ (scope.extend bs)) hf
    rw [← hfirst] at ho hs
    rw [← hboth] at ho' hs'
    have hsame : both.store = first.store := hs'.trans hs.symm
    refine ⟨fun e' he => ⟨?_, hsame⟩, fun hok => ?_, fun k => ?_⟩
    · rw [ho', ← ho, he]
    · rw [ho] at hok
      cases hok
    · obtain ⟨t, ht⟩ := Store.exists_output first.grows k
      exact ⟨t, "", ht, by rw [hsame, ht, String.append_empty]⟩
  | ok frames =>
    obtain ⟨ho, hs⟩ := bind_of_ok (f := fun _ => (pure () : Action Unit)) hf
    obtain ⟨ho', hs'⟩ := bind_of_ok
      (f := fun bs => Render.document ev sink ⟨b, source⟩ (scope.extend bs)) hf
    rw [← hfirst] at ho hs
    rw [← hboth] at ho' hs'
    have hstore : (Render.frames ⟨ev, sink, source⟩ scope a s).store = first.store := hs.symm
    rw [hstore] at ho' hs'
    refine ⟨fun e' he => ?_, fun _ => ⟨frames, rfl, hstore, hlen _ hf, ho', hs'⟩, fun k => ?_⟩
    · rw [ho] at he
      cases he
    · obtain ⟨t, ht⟩ := Store.exists_output first.grows k
      obtain ⟨u, hu⟩ := Store.exists_output
        (Render.document ev sink ⟨b, source⟩ (scope.extend frames) first.store).grows k
      exact ⟨t, u, ht, by rw [hs', hu, ht]⟩

end MarkupTemplate
