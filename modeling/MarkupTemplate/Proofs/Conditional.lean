import Mathlib
import MarkupTemplate.Host.Run
import MarkupTemplate.Proofs.Node.Script

/-!
# Conditional forms

A choice tests its branches one after the other, a selection matches the value of its scrutinee with
the patterns of its arms. Two laws say what they have in common. A choice of several branches is a
choice of the first one, with a choice of the others for its alternative. A selection is a choice
whose branches match the scrutinee anew with the pattern of each arm.

The guards differ: that of a selection stands around the body of the arm as well, that of a branch
only around its condition. This makes no difference, as the errors of a body have their places when
they reach the guard.

* `Evaluator.Steady`: a scrutinee repeats behind every arm that does not match.
* `Render.located_arms_cons`: the guard of a selection, arm by arm.
* `Render.arms_eq_branches`: the arms of a selection are the branches of a choice.
* `conditionals_agree`: the two laws.
* `Host.still_name`: a name is a scrutinee that repeats.
-/
namespace MarkupTemplate

open MarkupTemplate.Action

namespace Evaluator

variable (ev : Evaluator) (scrutinee : String) (scope : Bindings) (v : Value)

/-- Behind every arm that does not match, if another arm follows it, the scrutinee has the value
again and leaves the store as it is. -/
def Steady : List Arm → Store → Prop
  | .mk pattern _ :: a :: rest, s =>
    (ev.match? pattern v scope s).outcome = .ok none →
      (ev.evaluate scrutinee scope).Still v (ev.match? pattern v scope s).store
        ∧ Steady (a :: rest) (ev.match? pattern v scope s).store
  | _, _ => True

/-- An expression that has the same value in every store, without effect, is steady. -/
theorem steady_of_still (h : ∀ s, (ev.evaluate scrutinee scope).Still v s) (as : List Arm)
    (s : Store) : ev.Steady scrutinee scope v as s := by
  induction as generalizing s with
  | nil => trivial
  | cons a as ih =>
    obtain ⟨pattern, body⟩ := a
    cases as with
    | nil => trivial
    | cons a' as' => exact fun _ => ⟨h _, ih _⟩

end Evaluator

/-- An arm as a branch of its own: if the pattern of the arm matches the scrutinee. -/
def Arm.branch (scrutinee : String) (pos : Nat) : Arm → Branch
  | .mk pattern body => .mk scrutinee body (some pattern) pos

namespace Render

variable {r : Rendering} {scope : Bindings}

/-! ## Arms and branches -/

/-- The guard of a selection is that of the pattern of its first arm, and that of the other arms. -/
theorem located_arms_cons (pos : Nat) (v : Value) (pattern : String) (body : List Node)
    (rest : List Arm) :
    located r pos (arms r scope v (.mk pattern body :: rest))
      = located r pos (r.evaluator.match? pattern v scope) >>= fun bound =>
          match bound with
          | some b => do let _ ← nodes r (b.shadow scope) body
          | none => located r pos (arms r scope v rest) := by
  rw [arms, located_bind]
  refine congrArg (_ >>= ·) (funext fun bound => ?_)
  cases bound with
  | none => rfl
  | some b => simp only [located_bind, Script.located_nodes]; rfl

/-- The branch of an arm: the scrutinee is evaluated, and then its value is matched. -/
theorem branches_branch (otherwise : Action Unit) (scrutinee pattern : String) (pos : Nat)
    (body : List Node) (rest : List Branch) :
    branches r scope otherwise (Arm.branch scrutinee pos (.mk pattern body) :: rest)
      = located r pos (r.evaluator.evaluate scrutinee scope) >>= fun v =>
          located r pos (r.evaluator.match? pattern v scope) >>= fun bound =>
            match bound with
            | some b => do let _ ← nodes r (b.shadow scope) body
            | none => branches r scope otherwise rest := by
  rw [Arm.branch, branches, taken?, located_bind]
  exact Action.bind_assoc _ _ _

/-- Once the scrutinee has its value, the arms of a selection do what the first branch of a choice
does with it, and then the other branches, which match it anew. -/
theorem arms_eq_branches {scrutinee : String} {v : Value} (pos : Nat) (pattern : String)
    (body : List Node) (as : List Arm) (s : Store)
    (h : r.evaluator.Steady scrutinee scope v (.mk pattern body :: as) s) :
    located r pos (arms r scope v (.mk pattern body :: as)) s
      = (located r pos (r.evaluator.match? pattern v scope) >>= fun bound =>
          match bound with
          | some b => do let _ ← nodes r (b.shadow scope) body
          | none => branches r scope (pure ()) (as.map (Arm.branch scrutinee pos))) s := by
  induction as generalizing pattern body s with
  | nil =>
    rw [located_arms_cons]
    rfl
  | cons a as ih =>
    rw [located_arms_cons]
    refine bind_congr_at fun bound hbound => ?_
    cases bound with
    | some b => rfl
    | none =>
      -- Behind a pattern that does not match, the scrutinee repeats.
      obtain ⟨hm, hstore⟩ := located_eq_ok hbound
      obtain ⟨hv, hsteady⟩ := h hm
      rw [← hstore] at hv hsteady
      obtain ⟨pattern', body'⟩ := a
      simp only [List.map_cons, branches_branch]
      rw [Still.bind (ends_located hv)]
      exact ih pattern' body' _ hsteady

/-! ## Branches one after the other -/

/-- What a choice does when no branch is taken. -/
def alternative (r : Rendering) (scope : Bindings) : Option (List Node) → Action Unit
  | some otherwise => do let _ ← nodes r scope otherwise
  | none => pure ()

theorem node_choice (bs : List Branch) (otherwise : Option (List Node)) :
    node r scope (.choice bs otherwise)
      = branches r scope (alternative r scope otherwise) bs >>= fun _ => pure scope := by
  cases otherwise <;> rw [node, alternative]

/-- A choice that stands alone in an alternative is the alternative. -/
theorem alternative_choice (bs : List Branch) (otherwise : Option (List Node)) :
    alternative r scope (some [.choice bs otherwise])
      = branches r scope (alternative r scope otherwise) bs := by
  rw [alternative, nodes, node_choice]
  simp only [nodes, bind_assoc, pure_bind]
  exact bind_pure _

/-- The branches behind the first one are what happens when that one is not taken. -/
theorem branches_first (otherwise : Action Unit) (b : Branch) (bs : List Branch) :
    branches r scope otherwise (b :: bs)
      = branches r scope (branches r scope otherwise bs) [b] := by
  obtain ⟨condition, body, pattern, pos⟩ := b
  rw [branches, branches]
  rfl

/-- A selection whose scrutinee is steady is a choice, whatever the first evaluation of the
scrutinee does. -/
theorem selection_eq_choice (scrutinee : String) (a : Arm) (as : List Arm) (pos : Nat) (s : Store)
    (h : ∀ v, (r.evaluator.evaluate scrutinee scope s).outcome = .ok v →
      r.evaluator.Steady scrutinee scope v (a :: as)
        (r.evaluator.evaluate scrutinee scope s).store) :
    node r scope (.selection scrutinee (a :: as) pos) s
      = node r scope (.choice ((a :: as).map (Arm.branch scrutinee pos)) none) s := by
  obtain ⟨pattern, body⟩ := a
  rw [node_choice, alternative, List.map_cons, branches_branch, node, located_bind, bind_assoc,
    bind_assoc]
  refine bind_congr_at fun v hv => ?_
  obtain ⟨hv, hstore⟩ := located_eq_ok hv
  have hsteady := h v hv
  rw [← hstore] at hsteady
  exact bind_congr_left (arms_eq_branches pos pattern body as _ hsteady)

end Render

/-- The conditional forms agree, as runs from a store to a store with the outputs of all sinks, with
the same error in the same place if they fail. A choice of two branches or more is a choice of the
first one whose alternative is the choice of the others. A selection of one arm or more, whose
scrutinee has its value again behind every arm that does not match, is the choice without
alternative whose branches match the scrutinee with the patterns of the arms, each at the place of
the selection. -/
theorem conditionals_agree (r : Rendering) (scope : Bindings) :
    (∀ b b' bs otherwise, Render.node r scope (.choice (b :: b' :: bs) otherwise)
        = Render.node r scope (.choice [b] (some [.choice (b' :: bs) otherwise])))
      ∧ ∀ scrutinee a as pos s,
        (∀ v, (r.evaluator.evaluate scrutinee scope s).outcome = .ok v →
          r.evaluator.Steady scrutinee scope v (a :: as)
            (r.evaluator.evaluate scrutinee scope s).store) →
        Render.node r scope (.selection scrutinee (a :: as) pos) s
          = Render.node r scope
              (.choice ((a :: as).map (Arm.branch scrutinee pos)) none) s := by
  refine ⟨fun b b' bs otherwise => ?_, fun scrutinee a as pos s h => ?_⟩
  · rw [Render.node_choice, Render.node_choice, Render.alternative_choice, Render.branches_first]
  · exact Render.selection_eq_choice scrutinee a as pos s h

/-! ## Names as scrutinees -/

namespace Host

/-- The frame in which names are bound. -/
def bound (names : Bindings) : Cell := .frame (names.map fun (name, v) => (name, some v))

/-- A frame finds what the names in it are bound to. -/
theorem still_inFrame {names : Bindings} {name : String} {v : Value}
    (hv : names.get? name = some v) (s : Store) :
    (Object.inFrame? s.cells.size name).Still (some (some v)) (s.push (bound names)) := by
  have hcell : (Action.cell? s.cells.size).Still (some (bound names)) (s.push (bound names)) :=
    ⟨by simp [Action.cell?, Store.cell?, Store.push], rfl⟩
  have hfind : ((names.map fun (name, v) => (name, some v)).find? (·.1 == name)).map (·.2)
      = some (some v) := by
    rw [Bindings.get?, Option.map_eq_some_iff] at hv
    obtain ⟨p, hp, rfl⟩ := hv
    rw [List.find?_map]
    simp [hp]
  refine Ends.bind hcell ?_
  simp only [bound, hfind]
  exact ⟨rfl, rfl⟩

/-- A fragment that is a bound name has its value and leaves no trace. -/
theorem still_evaluate_name {level : Nat} {source id : String}
    (hread : Expr.ofSource? source.toList = some (.name id))
    (hnull : source.toList.contains '\x00' = false) (hfree : Expr.isFree id = true)
    {names : Bindings} {v : Value} (hv : names.get? id = some v) (s : Store) :
    (evaluate (interp (level + 1)) source names).Still v s := by
  have heval (env : Env) : (interp (level + 1)).eval env (.name id)
      = Object.lookUp id true env.frames := by
    show Eval.eval (interp level) env (.name id) = _
    simp only [Eval.eval, if_pos hfree]
  have hrun : evaluate (interp (level + 1)) source names
      = within names fun env => Object.lookUp id true env.frames := by
    simp only [evaluate, reading, hnull, hread, heval, Bool.false_eq_true, if_false]
  have hlook : (Object.lookUp id true [s.cells.size]).Still v (s.push (bound names)) :=
    Ends.bind (still_inFrame hv s) ⟨rfl, rfl⟩
  have hframe : (environment names).Ends s (.ok ⟨[s.cells.size], s.cells.size⟩)
      (s.push (bound names)) := ⟨rfl, rfl⟩
  -- The frame is made, the name is read in it, and the frame is given back.
  rw [hrun]
  exact hframe.bind (Ends.bind hlook ⟨rfl, Store.release_push s _⟩)

/-- An expression that is a bound name has the same value in every store, without effect. -/
theorem still_name {level : Nat} {globals scope : Bindings} {source id : String}
    (hread : Expr.ofSource? source.toList = some (.name id))
    (hnull : source.toList.contains '\x00' = false) (hfree : Expr.isFree id = true) {v : Value}
    (hv : (scope.shadow globals).get? id = some v) (s : Store) :
    ((⟨language (level + 1), globals⟩ : Evaluator).evaluate source scope).Still v s :=
  (still_evaluate_name hread hnull hfree hv s).mapFailure

end Host

/-- A name is matched with a literal and then with a capture. -/
theorem conditionals_agree_name :
    ∃ r : Rendering, ∃ scope : Bindings, ∃ a b : Arm,
      (∀ s v, (r.evaluator.evaluate "n" scope s).outcome = .ok v →
        r.evaluator.Steady "n" scope v [a, b] (r.evaluator.evaluate "n" scope s).store)
      ∧ ∀ s, Render.node r scope (.selection "n" [a, b] 0) s
        = Render.node r scope (.choice [a.branch "n" 0, b.branch "n" 0] none) s := by
  let r : Rendering := ⟨⟨Host.language 3, []⟩, 0, []⟩
  let arms : List Arm := [.mk "''" [.text "none"], .mk "k" [.expression ⟨"k", none, .text, 25⟩]]
  have hread : Host.Expr.ofSource? "n".toList = some (.name "n") := by cbv
  have hstill (s : Store) :
      (r.evaluator.evaluate "n" [("n", .str "b")]).Still (.str "b") s :=
    Host.still_name hread (by decide) (by decide) rfl s
  have hsteady (s : Store) (v : Value)
      (hv : (r.evaluator.evaluate "n" [("n", .str "b")] s).outcome = .ok v) :
      r.evaluator.Steady "n" [("n", .str "b")] v arms
        (r.evaluator.evaluate "n" [("n", .str "b")] s).store := by
    cases (hstill s).1.symm.trans hv
    exact Evaluator.steady_of_still _ _ _ _ hstill arms _
  exact ⟨r, _, _, _, hsteady, fun s => (conditionals_agree r _).2 "n" _ _ 0 s (hsteady s)⟩

end MarkupTemplate
