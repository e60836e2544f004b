import MarkupTemplate.Proofs.Node.Tracks

/-!
# Contexts of expressions

The parser gives an expression between tags the context of text, and an expression in an attribute
the context of attributes.

* `Node.InContext`: the expressions of a node and of the elements in it have the contexts of their
  places.
* `inContext_of_readNode`: the nodes that are read are such nodes.
* `inContext_of_ofText?`: so are those of a document.
-/
namespace MarkupTemplate

open Cursor Node

/-- The expressions in an attribute value have the context of attributes. -/
inductive AttributeValue.InContext : AttributeValue → Prop where
  | literal (text : String) : InContext (.literal text)
  | expression {e : Expression} (h : e.context = .attr) : InContext (.expression e)
  | conditional (items : List (String × String)) (pos : Nat) : InContext (.conditional items pos)
  | concat {parts : List AttributeValue} (h : ∀ part ∈ parts, InContext part) :
      InContext (.concat parts)
  | closure (c : Closure) : InContext (.closure c)
  | unsupported (kind : String) : InContext (.unsupported kind)

/-- The expressions in an attribute have the context of attributes. -/
def Attribute.InContext (a : Attribute) : Prop := ∀ v ∈ a.value, v.InContext

/-- The expressions of a node, and of the elements inside it, have the context of their place. -/
inductive Node.InContext : Node → Prop where
  | expression {e : Expression} (h : e.context = .text) : InContext (.expression e)
  | element {name : String} {attributes : List Attribute} {selfClosing : Bool}
      {children : List Node} {closeName : Option String} (ha : ∀ a ∈ attributes, a.InContext)
      (hc : ∀ child ∈ children, InContext child) :
      InContext (.element name attributes selfClosing children closeName)
  | other {node : Node} (he : ∀ e, node ≠ .expression e)
      (hn : ∀ name attributes selfClosing children closeName,
        node ≠ .element name attributes selfClosing children closeName) : InContext node

/-! ## Attributes -/

theorem context_of_expressionOf {context : EscapeContext} {t : Token} {e : Expression}
    (h : expressionOf context t = .ok e) : e.context = context :=
  (expressionOf_eq_ok_iff.mp h).2.1

theorem inContext_ofPart {cause : FaultCause} {t : Token} {part : Part}
    (h : partOf .attr cause t = .ok part) : (AttributeValue.ofPart part).InContext := by
  obtain ⟨-, rfl⟩ | ⟨-, e, he, rfl⟩ := partOf_eq_ok_iff.mp h
  · exact .literal _
  · exact .expression (context_of_expressionOf he)

theorem inContext_readParts {cause : FaultCause} {ts : List Token} {parts : List Part}
    (h : readParts .attr cause ts = .ok parts) :
    ∀ v ∈ parts.map AttributeValue.ofPart, v.InContext := by
  induction ts generalizing parts with
  | nil =>
    obtain rfl := Except.ok.inj h
    simp
  | cons t ts ih =>
    obtain ⟨part, hpart, h⟩ := Scan.bind_ok h
    obtain ⟨rest, hrest, h⟩ := Scan.bind_ok h
    obtain rfl := Except.ok.inj h
    exact List.forall_mem_cons.mpr ⟨inContext_ofPart hpart, ih hrest⟩

/-- What a reader answers when it succeeds has a property. -/
def Gives {α : Type} (r : Reader α) (P : α → Prop) : Prop := ∀ c a d, r c = .ok a d → P a

section Gives

variable {α β : Type} {r s : Reader α} {f : α → Reader β} {P : α → Prop} {Q : β → Prop}

theorem Gives.bind (hr : Gives r P) (hf : ∀ a, P a → Gives (f a) Q) : Gives (r >>= f) Q := by
  intro c b e h
  obtain ⟨a, d, ha, hb⟩ := Window.bind_eq_ok h
  exact hf a (hr c a d ha) d b e hb

theorem gives_true (r : Reader α) : Gives r fun _ => True := fun _ _ _ _ => trivial

/-- A reader that starts with another one, of which nothing is known. -/
theorem Gives.then (hf : ∀ a, Gives (f a) Q) : Gives (r >>= f) Q :=
  (gives_true r).bind fun a _ => hf a

theorem gives_pure {a : α} (h : P a) : Gives (pure a) P := by
  intro c b d hb
  change EStateM.Result.ok a c = _ at hb
  injection hb with h₁ h₂
  exact h₁ ▸ h

theorem gives_failAt {cause : FaultCause} {t : Token} : Gives (failAt cause t) P :=
  fun _ _ _ h => absurd h Window.failAt_ne_ok

theorem Gives.ite {p : Prop} [Decidable p] (hr : p → Gives r P) (hs : ¬ p → Gives s P) :
    Gives (if p then r else s) P := by
  by_cases h : p
  · rw [if_pos h]; exact hr h
  · rw [if_neg h]; exact hs h

theorem gives_lift {x : Except Fault α} (h : ∀ a, x = .ok a → P a) : Gives (lift x) P := by
  intro c a d ha
  exact h a (Window.lift_eq_ok ha).1

end Gives

theorem gives_readAttributeValue : Gives readAttributeValue AttributeValue.InContext := by
  refine .then fun c => ?_
  refine .ite (fun _ => .then fun _ => gives_pure (.literal _)) fun _ => ?_
  refine .ite (fun _ => .then fun _ => ?_) fun _ => ?_
  · exact (gives_lift fun e he => context_of_expressionOf he).bind
      fun e he => gives_pure (.expression he)
  refine .ite (fun _ => .then fun _ => .then fun items => gives_pure (.conditional _ _)) fun _ => ?_
  refine .ite (fun _ => .then fun _ => ?_) fun _ => ?_
  · exact (gives_lift fun parts hp => inContext_readParts hp).bind
      fun parts hp => gives_pure (.concat hp)
  exact .ite (fun _ => .then fun v => gives_pure (.closure v)) fun _ => gives_failAt

theorem gives_readAttribute : Gives readAttribute Attribute.InContext := by
  refine .then fun name => .then fun c => .ite (fun _ => .then fun _ => ?_) fun _ => ?_
  · exact gives_readAttributeValue.bind fun v hv => gives_pure (by simpa [Attribute.InContext])
  · exact gives_pure (by simp [Attribute.InContext])

theorem gives_readAttributes (name : String) (opening : Token) :
    Gives (readAttributes name opening) fun x => ∀ a ∈ x.1, a.InContext := by
  intro c x d h
  fun_induction readAttributes name opening c generalizing x d with
  | case1 c hg =>
    injection h with h₁ _
    subst h₁
    simp
  | case2 c hg hs =>
    injection h with h₁ _
    subst h₁
    simp
  | case3 => cases h
  | case4 => cases h
  | case5 => cases h
  | case6 c hg hs he a e ha as selfClosing f hr ih =>
    injection h with h₁ _
    subst h₁
    exact List.forall_mem_cons.mpr ⟨gives_readAttribute c a e ha, ih _ _ hr⟩

theorem gives_readTagHead : Gives readTagHead fun tag => ∀ a ∈ tag.attributes, a.InContext :=
  .then fun opening => .then fun name =>
    (gives_readAttributes name opening).bind fun _ hx => gives_pure hx

/-! ## Nodes -/

theorem gives_readExpression : Gives readExpression Node.InContext :=
  .then fun _ => (gives_lift fun _ he => context_of_expressionOf he).bind
    fun _ he => gives_pure (.expression he)

theorem gives_readText (kind : TokenKind) : Gives (readText kind) Node.InContext :=
  .then fun _ => gives_pure (.other (by simp) (by simp))

theorem gives_readComment : Gives readComment Node.InContext :=
  .then fun _ => .then fun _ => .then fun _ => .then fun _ =>
    .ite (fun _ => .then fun _ => gives_pure (.other (by simp) (by simp))) fun _ => gives_failAt

theorem gives_readDeclaration : Gives readDeclaration Node.InContext := by
  refine .then fun c => ?_
  cases cdataBody? (c.peek 1) with
  | some body =>
    exact .then fun _ => .then fun _ => .then fun _ => .then fun _ =>
      gives_pure (.other (by simp) (by simp))
  | none =>
    exact .then fun _ => .then fun _ => .then fun _ =>
      .ite (fun _ => gives_failAt) fun _ => .then fun _ => gives_pure (.other (by simp) (by simp))

theorem gives_readInstruction : Gives readInstruction Node.InContext :=
  .then fun _ => .then fun _ => .then fun _ => .then fun _ =>
    gives_pure (.other (by simp) (by simp))

theorem gives_readBinding : Gives readBinding Node.InContext :=
  .then fun _ => .then fun _ => .then fun _ => .then fun _ => .then fun _ =>
    .ite (fun _ => gives_failAt) fun _ => .then fun _ => gives_pure (.other (by simp) (by simp))

theorem gives_readControl (t : Token) : Gives (readControl t) Node.InContext := by
  refine .ite (fun _ => .then fun _ => gives_pure (.other (by simp) (by simp))) fun _ => ?_
  refine .ite (fun _ => .then fun _ => .then fun _ => gives_pure (.other (by simp) (by simp)))
    fun _ => ?_
  refine .ite (fun _ => .then fun _ => .then fun _ => .then fun _ => .then fun _ =>
    gives_pure (.other (by simp) (by simp))) fun _ => ?_
  refine .ite (fun _ => .then fun _ => .then fun _ => gives_pure (.other (by simp) (by simp)))
    fun _ => ?_
  exact .ite (fun _ => gives_readBinding) fun _ => gives_failAt

/-- A node is in its context when the nodes that are read from fewer tokens are. -/
theorem inContext_of_readNode {c d : Cursor} {node : Node}
    (ih : ∀ e : Cursor, sizeOf e.ahead < sizeOf c.ahead → ∀ opening nodes f,
      readNodes opening e = .ok nodes f → ∀ n ∈ nodes, n.InContext)
    (h : readNode c = .ok node d) : node.InContext := by
  rw [readNode_eq] at h
  cases hk : c.head.kind <;> rw [hk] at h
  case commentOpen => exact gives_readComment c node d h
  case declaration => exact gives_readDeclaration c node d h
  case instruction => exact gives_readInstruction c node d h
  case string => exact gives_readText _ c node d h
  case number => exact gives_readText _ c node d h
  case brace => exact gives_readExpression c node d h
  case lt =>
    obtain ⟨tag, e, htag, h⟩ := Window.bind_eq_ok h
    have ha := gives_readTagHead c tag e htag
    have hlt := Window.lt_of_advances advances_readTagHead htag
    split at h
    · injection h with h₁ _
      exact h₁ ▸ .element ha (by simp)
    · obtain ⟨children, f, hchildren, h⟩ := Window.bind_eq_ok h
      obtain ⟨close, g, -, h⟩ := Window.bind_eq_ok h
      injection h with h₁ _
      exact h₁ ▸ .element ha (ih e hlt _ children f hchildren)
  all_goals exact gives_readControl c.head c node d h

theorem inContext_of_readNodes {opening : Option Token} {c d : Cursor} {nodes : List Node}
    (h : readNodes opening c = .ok nodes d) : ∀ n ∈ nodes, n.InContext := by
  -- the nodes behind the first one, and those inside it, are read from fewer tokens
  induction hn : sizeOf c.ahead using Nat.strongRecOn generalizing opening c d nodes with
  | ind n ih =>
    subst hn
    have ih' : ∀ e : Cursor, sizeOf e.ahead < sizeOf c.ahead → ∀ opening nodes f,
        readNodes opening e = .ok nodes f → ∀ n ∈ nodes, n.InContext :=
      fun e hlt opening nodes f hr => ih _ hlt hr rfl
    have hcons : ∀ {opening nodes f}, (do
        let node ← readNode
        let nodes ← readNodes opening
        return node :: nodes : Reader (List Node)) c = .ok nodes f → ∀ n ∈ nodes, n.InContext := by
      intro opening nodes f h
      obtain ⟨node, e, hnode, h⟩ := Window.bind_eq_ok h
      obtain ⟨rest, f, hrest, h⟩ := Window.bind_eq_ok h
      injection h with h₁ _
      subst h₁
      exact List.forall_mem_cons.mpr ⟨inContext_of_readNode ih' hnode,
        ih' e (Window.lt_of_readNode hnode) _ _ _ hrest⟩
    cases opening with
    | some t =>
      rw [readNodes_some_eq] at h
      split at h
      · exact absurd h Window.failAt_ne_ok
      split at h
      · injection h with h₁ _
        simp [← h₁]
      · exact hcons h
    | none =>
      rw [readNodes_none_eq] at h
      split at h
      · injection h with h₁ _
        simp [← h₁]
      split at h
      · obtain ⟨name, e, hname, h⟩ := Window.bind_eq_ok h
        obtain ⟨rest, f, hrest, h⟩ := Window.bind_eq_ok h
        injection h with h₁ _
        subst h₁
        exact List.forall_mem_cons.mpr ⟨.other (by simp) (by simp),
          ih' e (Window.lt_of_advances advances_readCloseTag hname) _ _ _ hrest⟩
      · exact hcons h

theorem inContext_of_ofText? {text : List Char} {doc : Document}
    (h : Document.ofText? text = .ok doc) : ∀ n ∈ doc.nodes, n.InContext := by
  unfold Document.ofText? Document.ofTextFrom? at h
  split at h
  · cases h
  split at h
  · next nodes d hr =>
    obtain rfl := Except.ok.inj h
    exact inContext_of_readNodes hr
  · cases h

end MarkupTemplate
