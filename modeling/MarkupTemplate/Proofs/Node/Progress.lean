import MarkupTemplate.Proofs.Node.Tracks

/-!
# Progress of the readers of nodes

The readers of nodes only move to the right, whether they succeed or fail, and those that succeed
have taken a token.

* `ForwardFrom`: a reader ends at or after one cursor.
* `Node.advances_readNode`, `Node.forward_readNodes`: one node, and the nodes of a document or an
  element.
* `Node.advances_readBlock`, `Node.advances_readArmBody`: blocks and what arms yield.
-/
namespace MarkupTemplate

open Cursor

variable {α β : Type} {c d : Cursor}

/-- From the cursor on, the reader only moves to the right. -/
def ForwardFrom (r : Reader α) (c : Cursor) : Prop := c.Reaches (cursorOf (r c))

namespace ForwardFrom

theorem bind {r : Reader α} {f : α → Reader β} (hr : ForwardFrom r c)
    (hf : ∀ a d, r c = .ok a d → ForwardFrom (f a) d) : ForwardFrom (r >>= f) c := by
  unfold ForwardFrom at hr ⊢
  change c.Reaches (cursorOf (EStateM.bind r f c))
  unfold EStateM.bind
  cases h : r c with
  | ok a d =>
    rw [h] at hr
    exact hr.trans (hf a d h)
  | error f d => rwa [h] at hr

theorem congr {r s : Reader α} (h : r c = s c) (hs : ForwardFrom s c) : ForwardFrom r c := by
  rwa [ForwardFrom, h]

theorem ite {p : Prop} [Decidable p] {r s : Reader α} (hr : p → ForwardFrom r c)
    (hs : ¬ p → ForwardFrom s c) : ForwardFrom (if p then r else s) c := by
  split
  · exact hr ‹_›
  · exact hs ‹_›

end ForwardFrom

theorem Forward.reaches {r : Reader α} (hr : Forward r) {a : α} (h : r c = .ok a d) :
    c.Reaches d := by
  have hreach := hr c
  rwa [h] at hreach

/-- A reader that moves to the right and leaves less has taken a token. -/
theorem Advances.of_lt {r : Reader α} (hr : Forward r)
    (h : ∀ c a d, r c = .ok a d → sizeOf d.ahead < sizeOf c.ahead) : Advances r := by
  refine ⟨hr, fun c a d hd => ?_⟩
  obtain ⟨n, rfl⟩ := hr.reaches hd
  have hlt := h c a _ hd
  have hpos : 0 < n := Nat.pos_of_ne_zero fun h₀ => by
    rw [h₀, skip_zero] at hlt
    exact Nat.lt_irrefl _ hlt
  exact length_skip_lt (Window.ne_nil_of_lt hlt) hpos

namespace Node

/-- What a block holds does not move the cursor before which the block stood. -/
theorem forward_readBlock : Forward readBlock := fun c => by
  refine ForwardFrom.congr (readBlock_eq c) (Forward.bind (forward_expectKind _) (fun t => ?_) c)
  refine Forward.get.bind fun d => ?_
  cases readNodes none (d.inside t) with
  | ok nodes _ => exact .pure nodes
  | error f _ => exact .throw f

theorem advances_readBlock : Advances readBlock :=
  .of_lt forward_readBlock fun _ _ _ h => Window.lt_of_readBlock h

theorem forward_readBranches (c : Cursor) : ForwardFrom readBranches c := by
  refine .congr (readBranches_eq c) ?_
  refine .bind (forward_readBranchHead c) fun head d hd => ?_
  refine .bind (forward_readBlock d) fun body e he => ?_
  have hle := Window.le_of_forward forward_readBranchHead hd
  have hlt := Window.lt_of_readBlock he
  refine .bind (Forward.get e) fun _ _ hget => ?_
  cases hget
  refine .ite (fun _ => ?_) fun _ => Forward.pure _ e
  refine .bind (forward_expect _ _ e) fun _ f hf => ?_
  have hlt' := Window.lt_of_advances (advances_expect _ (by decide)) hf
  refine .bind (Forward.get f) fun _ _ hget => ?_
  cases hget
  refine .ite (fun _ => ?_) fun _ => Forward.bind forward_readBlock (fun _ => .pure _) f
  refine .bind (forward_expect _ _ f) fun _ g hg => ?_
  have hlt'' := Window.lt_of_advances (advances_expect _ (by decide)) hg
  exact .bind (forward_readBranches g) fun _ k _ => Forward.pure _ k
termination_by sizeOf c.ahead

mutual

theorem forwardFrom_readNodes (opening : Option Token) (c : Cursor) :
    ForwardFrom (readNodes opening) c := by
  -- a node and the nodes behind it
  have hcons : ForwardFrom (readNode >>= fun node => readNodes opening >>= fun nodes =>
      pure (node :: nodes)) c := by
    refine .bind (forwardFrom_readNode c) fun node d hd => ?_
    have hlt := Window.lt_of_readNode hd
    exact .bind (forwardFrom_readNodes opening d) fun _ e _ => Forward.pure _ e
  cases opening with
  | some t =>
    refine .congr (readNodes_some_eq t c) ?_
    exact .ite (fun _ => Forward.failAt _ _ c) fun _ => .ite (fun _ => Forward.pure _ c)
      fun _ => hcons
  | none =>
    refine .congr (readNodes_none_eq c) ?_
    refine .ite (fun _ => Forward.pure _ c) fun _ => .ite (fun _ => ?_) fun _ => hcons
    refine .bind (advances_readCloseTag.1 c) fun name d hd => ?_
    have hlt := Window.lt_of_advances advances_readCloseTag hd
    exact .bind (forwardFrom_readNodes none d) fun _ e _ => Forward.pure _ e
termination_by (sizeOf c.ahead, 2)
decreasing_by
  · exact Prod.Lex.right _ (by omega)
  · exact Prod.Lex.left _ _ hlt
  · exact Prod.Lex.left _ _ hlt

theorem forwardFrom_readElement (c : Cursor) : ForwardFrom readElement c := by
  refine .bind (advances_readTagHead.1 c) fun tag d hd => ?_
  have hlt := Window.lt_of_advances advances_readTagHead hd
  refine .ite (fun _ => Forward.pure _ d) fun _ => ?_
  exact .bind (forwardFrom_readNodes _ d) fun _ e _ =>
    Forward.bind advances_readCloseTag.1 (fun _ => .pure _) e
termination_by (sizeOf c.ahead, 0)
decreasing_by exact Prod.Lex.left _ _ hlt

theorem forwardFrom_readNode (c : Cursor) : ForwardFrom readNode c := by
  have hcontrol : Forward (readControl c.head) := by
    refine .ite (advances_readClosure.1.bind fun _ => .pure _) (.ite ?_ (.ite ?_ (.ite ?_
      (.ite advances_readBinding.1 (.failAt _ _)))))
    · exact (forward_expect _ _).bind fun _ => Forward.bind forward_readBranches fun _ => .pure _
    · exact advances_readMatchHead.1.bind fun _ => (forward_expectKind _).bind fun _ =>
        Forward.get.bind fun _ => (Forward.lift _).bind fun _ => .pure _
    · exact advances_readForHead.1.bind fun _ => forward_readBlock.bind fun _ => .pure _
  refine .congr (readNode_eq c) ?_
  cases c.head.kind
  case commentOpen => exact advances_readComment.1 c
  case declaration => exact advances_readDeclaration.1 c
  case instruction => exact advances_readInstruction.1 c
  case lt => exact forwardFrom_readElement c
  case string => exact (advances_readText (by decide)).1 c
  case number => exact (advances_readText (by decide)).1 c
  case brace => exact advances_readExpression.1 c
  all_goals exact hcontrol c
termination_by (sizeOf c.ahead, 1)
decreasing_by exact Prod.Lex.right _ (by omega)

end

theorem forward_readNodes (opening : Option Token) : Forward (readNodes opening) :=
  forwardFrom_readNodes opening

theorem advances_readNode : Advances readNode :=
  .of_lt forwardFrom_readNode fun _ _ _ h => Window.lt_of_readNode h

theorem advances_readArmBody : Advances readArmBody := by
  refine .of_lt (fun c => ?_) fun _ _ _ h => Window.lt_of_readArmBody h
  refine ForwardFrom.congr (readArmBody_eq c) (ForwardFrom.ite (fun _ => forward_readBlock c)
    fun _ => Forward.bind forwardFrom_readNode (fun _ => .pure _) c)

end Node

end MarkupTemplate
