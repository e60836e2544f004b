import MarkupTemplate.Node.Read
import MarkupTemplate.Proofs.Atom.Reading

/-!
# One step of the readers of nodes

The readers of nodes carry the facts that make their recursion end. Without these facts, each of
them is a run of simpler readers.

* `readNodes_none_eq`, `readNodes_some_eq`: the nodes of a document or of an element.
* `Node.readNode_eq`: one node.
* `Node.readBlock_eq`, `Node.readBranches_eq`, `Node.readArmBody_eq`: blocks, branches and arms.
* `Node.armsFrom_eq_ok_iff`: the arms of a selection.
-/
namespace MarkupTemplate

open Cursor

namespace Node

/-! ## Readings without facts -/

/-- A reading without what it knows about where it stopped. -/
def result {α : Type} {P : Cursor → Prop} (r : Reading (α × { d : Cursor // P d })) :
    EStateM.Result Fault Cursor α :=
  match r with
  | .ok (a, d) => .ok a d.1
  | .error (f, d) => .error f d

section Result

variable {α β : Type} {P Q : Cursor → Prop} {c : Cursor}

theorem result_take {r : Reader α} (h : Advances r) : result (take r h c) = r c := by
  unfold take
  split <;> next hr => exact hr.symm

theorem result_pass {r : Reader α} (h : Forward r) : result (pass r h c) = r c := by
  unfold pass
  split <;> next hr => exact hr.symm

theorem result_bind {r : Reading (α × { d : Cursor // P d })}
    {f : α × { d : Cursor // P d } → Reading (β × { d : Cursor // Q d })} {s : Reader α}
    {g : α → Reader β} (hr : result r = s c) (hf : ∀ a d, result (f (a, d)) = g a d.1) :
    result (r >>= f) = (s >>= g) c := by
  change _ = EStateM.bind s g c
  rw [EStateM.bind, ← hr]
  cases r with
  | error e => rfl
  | ok x => exact hf x.1 x.2

end Result

/-! ## The readers -/

/-- Takes the nodes in a brace group. -/
def readBlock : Reader (List Node) := fun c => result (blockFrom c)

/-- Takes the branches of a choice after `if`, and its last resort. -/
def readBranches : Reader (List Branch × Option (List Node)) := fun c => result (branchesFrom c)

/-- Takes what an arm yields. -/
def readArmBody : Reader (List Node) := fun c => result (armBodyFrom c)

/-- Takes an element. -/
def readElement : Reader Node := do
  let tag ← readTagHead
  if tag.selfClosing then return .element tag.name tag.attributes true [] none
  else do
    let children ← readNodes (some tag.opening)
    let close ← readCloseTag
    return .element tag.name tag.attributes false children (some close)

/-- Takes a choice. -/
def readChoice : Reader Node := do
  let _ ← expect .keyword "if"
  let (branches, otherwise) ← readBranches
  return .choice branches otherwise

/-- Takes a selection. -/
def readSelection : Reader Node := do
  let (scrutinee, pos) ← readMatchHead
  let group ← expectKind .brace
  let arms ← lift (armsFrom ((← get).inside group))
  return .selection scrutinee arms pos

/-- Takes a loop. -/
def readLoop : Reader Node := do
  let (pattern, iterable, pos) ← readForHead
  let body ← readBlock
  return .loop pattern iterable body pos

/-- Takes a node that a word or a bar opens. -/
def readControl (t : Token) : Reader Node :=
  if t.has .punct "|" then do return .closure (← readClosure)
  else if t.has .keyword "if" then readChoice
  else if t.has .keyword "match" then readSelection
  else if t.has .keyword "for" then readLoop
  else if t.has .keyword "let" then readBinding
  else failAt (unexpected t) t

/-- The brace group of a block is taken like any other token. -/
theorem takeBlock_eq (c : Cursor) :
    (∃ t d, takeBlock c = .ok (t, d) ∧ expectKind .brace c = .ok t.1 d.1
        ∧ d.1.source = c.source)
      ∨ ∃ f d, takeBlock c = .error (f, d) ∧ expectKind .brace c = .error f d := by
  obtain ⟨source, stop, index, ahead⟩ := c
  cases ahead with
  | nil => exact .inr ⟨_, _, rfl, rfl⟩
  | cons t rest =>
    by_cases hk : t.kind = .brace
    · have he : expectKind .brace ⟨source, stop, index, t :: rest⟩
          = .ok t ((⟨source, stop, index, t :: rest⟩ : Cursor).skip 1) := by
        change (if t.kind = .brace then pure t else _ : Reader Token) _ = _
        rw [if_pos hk]; rfl
      refine .inl ⟨⟨t, ?_⟩, ⟨_, ?_⟩, ?_, he, rfl⟩
      · cases t
        simp only [Token.children, List.cons.sizeOf_spec, Token.mk.sizeOf_spec]
        omega
      · simp only [List.drop_succ_cons, List.drop_zero, List.cons.sizeOf_spec]
        omega
      · simp only [takeBlock, if_pos hk]
        rfl
    · have he : expectKind .brace ⟨source, stop, index, t :: rest⟩
          = .error ⟨.expectedKind TokenKind.brace.name t, t.pos⟩
            ((⟨source, stop, index, t :: rest⟩ : Cursor).skip 1) := by
        change (if t.kind = .brace then pure t else _ : Reader Token) _ = _
        rw [if_neg hk]; rfl
      exact .inr ⟨_, _, by simp only [takeBlock, if_neg hk], he⟩

theorem result_bind_takeBlock {β : Type} {Q : Cursor → Prop} {c : Cursor}
    {f : { t : Token // sizeOf t.children < sizeOf c.ahead } × Past c →
      Reading (β × { d : Cursor // Q d })} {g : Token → Reader β}
    (hf : ∀ t d, d.1.source = c.source → result (f (t, d)) = g t.1 d.1) :
    result (takeBlock c >>= f) = (expectKind .brace >>= g) c := by
  change _ = EStateM.bind (expectKind .brace) g c
  rw [EStateM.bind]
  rcases takeBlock_eq c with ⟨t, d, h₁, h₂, h₃⟩ | ⟨e, d, h₁, h₂⟩
  · rw [h₁, h₂]
    exact hf t d h₃
  · rw [h₁, h₂]
    rfl

theorem inside_eq {c d : Cursor} (h : d.source = c.source) (t : Token) :
    d.inside t = c.inside t := by
  rw [inside, inside, h]

theorem readNodes_eq_result (opening : Option Token) (c : Cursor) :
    readNodes opening c = result (nodesFrom opening c) := by
  unfold readNodes result
  cases nodesFrom opening c <;> rfl

theorem readNode_eq_result (c : Cursor) : readNode c = result (nodeFrom c) := by
  unfold readNode result
  cases nodeFrom c <;> rfl

/-- The nodes of a block are read like those of a text of their own. -/
theorem readBlock_eq (c : Cursor) : readBlock c = (do
    let group ← expectKind .brace
    let d ← get
    match readNodes none (d.inside group) with
    | .ok nodes _ => return nodes
    | .error f _ => throw f : Reader (List Node)) c := by
  unfold readBlock
  rw [blockFrom]
  refine result_bind_takeBlock fun ⟨t, _⟩ d hd => ?_
  change _ = (match readNodes none (d.1.inside t) with
    | .ok nodes _ => pure nodes
    | .error f _ => throw f : Reader (List Node)) d.1
  rw [inside_eq hd, readNodes_eq_result]
  dsimp only
  cases nodesFrom none (c.inside t) <;> rfl

theorem readBranches_eq (c : Cursor) : readBranches c = (do
    let head ← readBranchHead
    let body ← readBlock
    let branch := Branch.mk head.condition body head.pattern head.pos
    if (← get).sees .keyword "else" then do
      let _ ← expect .keyword "else"
      if (← get).sees .keyword "if" then do
        let _ ← expect .keyword "if"
        let (branches, otherwise) ← readBranches
        return (branch :: branches, otherwise)
      else do
        let otherwise ← readBlock
        return ([branch], some otherwise)
    else return ([branch], none) : Reader (List Branch × Option (List Node))) c := by
  unfold readBranches
  rw [branchesFrom]
  refine result_bind (result_pass _) fun head d => ?_
  refine result_bind (s := readBlock) rfl fun body e => ?_
  change _ = (if e.1.sees .keyword "else" = true then _ else _ : Reader _) e.1
  dsimp only
  split
  · refine result_bind (result_take _) fun _ f => ?_
    change _ = (if f.1.sees .keyword "if" = true then _ else _ : Reader _) f.1
    dsimp only
    split
    · refine result_bind (result_take _) fun _ g => ?_
      exact result_bind (s := readBranches) rfl fun x k => rfl
    · exact result_bind (s := readBlock) rfl fun otherwise g => rfl
  · rfl

theorem readArmBody_eq (c : Cursor) : readArmBody c = (
    if c.isAt .brace then readBlock
    else do
      let node ← readNode
      return [node] : Reader (List Node)) c := by
  unfold readArmBody
  rw [armBodyFrom]
  split
  · rfl
  · exact result_bind (readNode_eq_result c).symm fun node d => rfl

theorem result_of_mapError {α : Type} {P : Cursor → Prop}
    {r : Reading (α × { d : Cursor // P d })} {a : α} {d : { d : Cursor // P d }}
    (h : r.mapError (·.1) = .ok (a, d)) : result r = .ok a d.1 := by
  cases r with
  | error e => cases h
  | ok x => obtain rfl := Except.ok.inj h; rfl

theorem mapError_of_result {α : Type} {P : Cursor → Prop}
    {r : Reading (α × { d : Cursor // P d })} {a : α} {d : Cursor} (h : result r = .ok a d) :
    ∃ hd, r.mapError (·.1) = .ok (a, ⟨d, hd⟩) := by
  cases r with
  | error e => cases h
  | ok x =>
    obtain ⟨b, d', hd⟩ := x
    injection h with h₁ h₂
    subst h₁ h₂
    exact ⟨hd, rfl⟩

/-- The arms of a selection: none at the end, else one arm and the arms after it. -/
theorem armsFrom_eq_ok_iff {c : Cursor} {arms : List Arm} : armsFrom c = .ok arms ↔
    (c.isAt .endOfInput = true ∧ arms = []) ∨ (c.isAt .endOfInput = false
      ∧ ∃ pattern d body e f rest, readArmHead c = .ok pattern d ∧ readArmBody d = .ok body e
        ∧ skipComma e = .ok () f ∧ armsFrom f = .ok rest ∧ arms = .mk pattern body :: rest) := by
  rw [armsFrom]
  cases hend : c.isAt .endOfInput with
  | true =>
    simp only [if_true, true_and, reduceCtorEq, false_and, or_false]
    exact ⟨fun h => (Except.ok.inj h).symm, fun h => congrArg Except.ok h.symm⟩
  | false =>
    simp only [Bool.false_eq_true, if_false, false_and, false_or, true_and]
    constructor
    · intro h
      obtain ⟨⟨pattern, d, _⟩, h₁, h⟩ := Scan.bind_ok h
      obtain ⟨⟨body, e, _⟩, h₂, h⟩ := Scan.bind_ok h
      obtain ⟨⟨⟨⟩, f, _⟩, h₃, h⟩ := Scan.bind_ok h
      obtain ⟨rest, h₄, h⟩ := Scan.bind_ok h
      exact ⟨pattern, d, body, e, f, rest, (result_pass _).symm.trans (result_of_mapError h₁),
        result_of_mapError h₂, (result_pass _).symm.trans (result_of_mapError h₃), h₄,
        (Except.ok.inj h).symm⟩
    · rintro ⟨pattern, d, body, e, f, rest, h₁, h₂, h₃, h₄, rfl⟩
      obtain ⟨hd, h₁⟩ := mapError_of_result ((result_pass forward_readArmHead).trans h₁)
      obtain ⟨he, h₂⟩ := mapError_of_result h₂
      obtain ⟨hf, h₃⟩ := mapError_of_result ((result_pass forward_skipComma).trans h₃)
      rw [h₁]
      change Except.bind _ _ = _
      simp only [Except.bind, bind]
      rw [h₂]
      simp only
      rw [h₃]
      simp only
      rw [h₄]
      rfl

theorem readNode_eq (c : Cursor) : readNode c = (match c.head.kind with
    | .commentOpen => readComment
    | .declaration => readDeclaration
    | .instruction => readInstruction
    | .lt => readElement
    | .string => readText .string
    | .number => readText .number
    | .brace => readExpression
    | _ => readControl c.head : Reader Node) c := by
  rw [readNode_eq_result, nodeFrom]
  cases hk : c.head.kind
  case lt =>
    refine result_bind (result_take _) fun tag d => ?_
    dsimp only
    split
    · rfl
    · refine result_bind (readNodes_eq_result _ _).symm fun children e => ?_
      exact result_bind (result_pass _) fun close f => rfl
  all_goals first | exact result_take _ | skip
  all_goals
    rw [readControl]
    dsimp only
    split
    · exact result_bind (result_take _) fun value d => rfl
    split
    · refine result_bind (result_take _) fun _ d => ?_
      exact result_bind (s := readBranches) rfl fun x e => rfl
    split
    · refine result_bind (result_take _) fun x d => ?_
      refine result_bind_takeBlock fun ⟨t, _⟩ e he => ?_
      change _ = (lift (armsFrom (e.1.inside t)) >>= fun arms => _ : Reader Node) e.1
      rw [inside_eq he]
      dsimp only
      cases armsFrom (d.1.inside t) <;> rfl
    split
    · refine result_bind (result_take _) fun x d => ?_
      exact result_bind (s := readBlock) rfl fun body e => rfl
    split
    · exact result_take _
    · rfl

/-- An element that does not close itself is read as its tag, its nodes and a closing tag. -/
theorem readNode_element {c d e f : Cursor} {tag : TagHead} {children : List Node}
    {closeName : String} (hk : c.head.kind = .lt) (htag : readTagHead c = .ok tag d)
    (hs : tag.selfClosing = false) (hchildren : readNodes (some tag.opening) d = .ok children e)
    (hclose : readCloseTag e = .ok closeName f) :
    readNode c = .ok (.element tag.name tag.attributes false children (some closeName)) f := by
  rw [readNode_eq, hk]
  show EStateM.bind readTagHead _ c = _
  rw [EStateM.bind, htag]
  simp only [hs, Bool.false_eq_true, if_false]
  show EStateM.bind (readNodes (some tag.opening)) _ d = _
  rw [EStateM.bind, hchildren]
  show EStateM.bind readCloseTag _ e = _
  rw [EStateM.bind, hclose]
  rfl

end Node

open Node

theorem readNodes_none_eq (c : Cursor) : readNodes none c = (
    if c.isAt .endOfInput then return []
    else if c.isAt .closeTag then do
      let name ← readCloseTag
      let nodes ← readNodes none
      return .text ("</" ++ name ++ ">") :: nodes
    else do
      let node ← readNode
      let nodes ← readNodes none
      return node :: nodes : Reader (List Node)) c := by
  rw [readNodes_eq_result, nodesFrom]
  split
  · rfl
  split
  · refine result_bind (result_take _) fun name d => ?_
    exact result_bind (readNodes_eq_result _ _).symm fun nodes e => rfl
  · refine result_bind (readNode_eq_result c).symm fun node d => ?_
    exact result_bind (readNodes_eq_result _ _).symm fun nodes e => rfl

theorem readNodes_some_eq (t : Token) (c : Cursor) : readNodes (some t) c = (
    if c.isAt .endOfInput then failAt .unterminatedElement t
    else if c.isAt .closeTag then return []
    else do
      let node ← readNode
      let nodes ← readNodes (some t)
      return node :: nodes : Reader (List Node)) c := by
  rw [readNodes_eq_result, nodesFrom]
  split
  · rfl
  split
  · rfl
  · refine result_bind (readNode_eq_result c).symm fun node d => ?_
    exact result_bind (readNodes_eq_result _ _).symm fun nodes e => rfl

end MarkupTemplate
