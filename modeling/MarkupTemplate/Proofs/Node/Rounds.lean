import MarkupTemplate.Proofs.Cursor.Takes
import MarkupTemplate.Proofs.Node.Fault
import MarkupTemplate.Proofs.Node.Progress
import MarkupTemplate.Proofs.Piece

/-!
# Loops of the parser

Nodes, attributes, the items of a conditional list, parts, payloads, arms and branches are each read
by a loop. Every round of such a loop takes a token, so that a loop ends after at most as many
rounds as there are tokens: its test stops it, or a round fails.

* `Cursor.Loop`: a loop with its test and its round; `Cursor.Loop.Rounds`: what some rounds take.
* `Cursor.Loop.ends`: how a loop ends, and what it answers.
* `Node.Repetition`: the loops of the parser.
-/
namespace MarkupTemplate

open Cursor Node

namespace Cursor

/-! ## Loops -/

/-- Goes on behind a reading, if it succeeds. -/
def follow {α β : Type} (r : EStateM.Result Fault Cursor α) (k : α → Cursor → Except Fault β) :
    Except Fault β :=
  match r with
  | .ok a d => k a d
  | .error f _ => .error f

/-- A loop of readers, with what makes it end. -/
structure Loop where
  /-- What a round takes. -/
  Item : Type
  /-- What the loop answers. -/
  Answer : Type
  /-- What the loop answers from a cursor on. -/
  run : Cursor → Except Fault Answer
  /-- The test before a round: whether the loop is left. -/
  stops : Cursor → Bool
  /-- What is answered where the loop is left. -/
  exit : Cursor → Except Fault Answer
  /-- A round. -/
  body : Reader Item
  /-- What a round took, before what the later ones answer. -/
  push : Item → Answer → Answer
  run_eq : ∀ c, run c = if stops c then exit c else follow (body c) fun a d => (run d).map (push a)
  forward : Forward body
  takes : ∀ {c a d}, stops c = false → body c = .ok a d → d.ahead.length < c.ahead.length

theorem Reaches.index_add {c d : Cursor} (h : c.Reaches d) :
    c.index ≤ d.index ∧ d.index + d.ahead.length = c.index + c.ahead.length := by
  obtain ⟨n, rfl⟩ := h
  simp only [skip, List.length_drop]
  omega

namespace Loop

variable {l : Loop} {c d e : Cursor}

/-- Some rounds of a loop, each behind a test that does not stop it, with what they take. -/
inductive Rounds (l : Loop) : Cursor → List l.Item → Cursor → Prop where
  | nil {c : Cursor} : Rounds l c [] c
  | cons {c d e : Cursor} {a : l.Item} {as : List l.Item} (hs : l.stops c = false)
      (h : l.body c = .ok a d) (hr : Rounds l d as e) : Rounds l c (a :: as) e

/-- Every round takes a token. -/
theorem Rounds.index_le {as : List l.Item} (h : l.Rounds c as d) :
    c.index + as.length ≤ d.index := by
  induction h with
  | nil => exact Nat.le_refl _
  | @cons c d e a as hs h _ ih =>
    have hindex := (l.forward.reaches h).index_add
    have hlt := l.takes hs h
    rw [List.length_cons]
    omega

theorem Rounds.reaches {as : List l.Item} (h : l.Rounds c as d) : c.Reaches d := by
  induction h with
  | nil => exact .refl _
  | cons _ h _ ih => exact (l.forward.reaches h).trans ih

/-- What a round took stands before what the loop answers behind it. -/
theorem run_of_ok {a : l.Item} (hs : l.stops c = false) (h : l.body c = .ok a d) :
    l.run c = (l.run d).map (l.push a) := by
  rw [l.run_eq, hs, if_neg Bool.false_ne_true, h, follow]

/-- What some rounds took stands before what the loop answers behind them. -/
theorem Rounds.run_eq {as : List l.Item} (h : l.Rounds c as d) :
    l.run c = (l.run d).map fun b => as.foldr l.push b := by
  induction h with
  | nil => cases l.run _ <;> rfl
  | @cons c d e a as hs h _ ih =>
    rw [run_of_ok hs h, ih]
    cases l.run e <;> rfl

/-- From every cursor on, some rounds come to where the test stops the loop or the round fails. -/
theorem exists_rounds (l : Loop) (c : Cursor) : ∃ as d, l.Rounds c as d
    ∧ (l.stops d = true ∨ l.stops d = false ∧ ∃ f e, l.body d = .error f e) := by
  induction hn : c.ahead.length using Nat.strongRecOn generalizing c with
  | ind n ih =>
    subst hn
    cases hs : l.stops c with
    | true => exact ⟨[], c, .nil, .inl hs⟩
    | false =>
      cases hb : l.body c with
      | error f e => exact ⟨[], c, .nil, .inr ⟨hs, f, e, hb⟩⟩
      | ok a d =>
        obtain ⟨as, e, hr, hend⟩ := ih _ (l.takes hs hb) d rfl
        exact ⟨a :: as, e, .cons hs hb hr, hend⟩

/-- A loop ends: after some rounds its test stops it, and what they took stands before what it
answers there; or the next round fails, and so does the loop. -/
theorem ends (l : Loop) (c : Cursor) : ∃ as d, l.Rounds c as d
    ∧ ((l.stops d = true ∧ l.run c = (l.exit d).map fun b => as.foldr l.push b)
      ∨ ∃ f e, l.stops d = false ∧ l.body d = .error f e ∧ l.run c = .error f) := by
  obtain ⟨as, d, hr, hend⟩ := l.exists_rounds c
  refine ⟨as, d, hr, hend.imp (fun hs => ⟨hs, ?_⟩) fun ⟨hs, f, e, hb⟩ => ⟨f, e, hs, hb, ?_⟩⟩
  · rw [hr.run_eq, l.run_eq, hs, if_pos rfl]
  · rw [hr.run_eq, l.run_eq, hs, if_neg Bool.false_ne_true, hb]
    rfl

end Loop

/-! ## Single steps -/

section Steps

variable {c : Cursor}

theorem head_eq (c : Cursor) : c.head = c.ahead.head?.getD c.ending := by
  rw [head, peek, List.head?_eq_getElem?]

theorem skip_of_nil (h : c.ahead = []) (n : Nat) : c.skip n = c := by
  cases c
  simp_all [skip]

/-- A run of tokens up to the one that stops it, and what is left. -/
theorem takeAllUntil_eq (stop : Token → Bool) (c : Cursor) :
    takeAllUntil stop c = .ok (c.ahead.takeWhile (!stop ·)) (c.skip (c.reach stop))
      ∧ (c.skip (c.reach stop)).ahead = c.ahead.dropWhile (!stop ·) := by
  have hsplit := c.ahead.takeWhile_append_dropWhile (p := (!stop ·))
  have htake : c.ahead.take (c.reach stop) = c.ahead.takeWhile (!stop ·) := by
    conv => lhs; rw [← hsplit]
    exact List.take_left
  have hdrop : c.ahead.drop (c.reach stop) = c.ahead.dropWhile (!stop ·) := by
    conv => lhs; rw [← hsplit]
    exact List.drop_left
  exact ⟨by rw [takeAllUntil, htake], hdrop⟩

theorem expect_eq (kind : TokenKind) (value : String) (c : Cursor) : expect kind value c =
    if c.sees kind value then .ok c.head (c.skip 1)
    else .error ⟨.expectedValue value c.head, c.head.pos⟩ (c.skip 1) := by
  rw [expect, Window.bind_of_ok (show next c = .ok _ _ from rfl), sees]
  split <;> rfl

end Steps

end Cursor

namespace Node

variable {c d : Cursor}

/-! ## Rounds -/

theorem advances_readItem : Advances readItem := by
  refine .of_lt (fun c => ?_) fun _ _ _ h => lt_of_readItem h
  unfold readItem
  split
  · exact advances_readCloseTag.1.bind (fun _ => .pure _) c
  · exact advances_readNode.1 c

/-- Takes a literal or an expression of a context. -/
def readPart (context : EscapeContext) (cause : FaultCause) : Reader Part := do
  let t ← next
  lift (partOf context cause t)

/-- Takes an item of a conditional list, and the comma behind it. -/
def readCondition : Reader (String × String) := do
  let part ← next
  if part.isLiteral then do
    let _ ← expect .punct ":"
    let condition ← takeAllUntil isComma
    if condition.isEmpty then failAt (.missingCondition part.value) (← get).head
    else do
      let _ ← skipComma
      return (part.value, (← get).raw condition)
  else failAt .expectedListLiteral part

/-- Takes an arm. -/
def readArm : Reader Arm := do
  let pattern ← readArmHead
  let body ← readArmBody
  let _ ← skipComma
  return .mk pattern body

/-- Takes a branch behind `if`. -/
def readBranch : Reader Branch := do
  let head ← readBranchHead
  let body ← readBlock
  return .mk head.condition body head.pattern head.pos

/-- Takes a branch behind which another follows, up to that one. -/
def readElseIf : Reader Branch := do
  let branch ← readBranch
  let _ ← expect .keyword "else"
  let _ ← expect .keyword "if"
  return branch

/-- Takes the last branch and the last resort behind it. -/
def readLastBranch : Reader (List Branch × Option (List Node)) := do
  let branch ← readBranch
  if (← get).sees .keyword "else" then do
    let _ ← expect .keyword "else"
    let otherwise ← readBlock
    return ([branch], some otherwise)
  else return ([branch], none)

theorem forward_readBranch : Forward readBranch :=
  forward_readBranchHead.bind fun _ => forward_readBlock.bind fun _ => .pure _

theorem advances_readElseIf : Advances readElseIf :=
  .bind_right forward_readBranch fun _ =>
    (advances_expect "else" (by decide)).bind_left fun _ =>
      (forward_expect .keyword "if").bind fun _ => .pure _

theorem advances_readArm : Advances readArm :=
  .bind_right forward_readArmHead fun _ => advances_readArmBody.bind_left fun _ =>
    forward_skipComma.bind fun _ => .pure _

theorem advances_readPart (context : EscapeContext) (cause : FaultCause) :
    Advances (readPart context cause) := by
  refine ⟨Forward.next.bind fun _ => .lift _, fun c part d h => ?_⟩
  obtain ⟨t, e, ht, h⟩ := Window.bind_eq_ok h
  obtain ⟨hpart, rfl⟩ := Window.lift_eq_ok h
  have hk : t.kind ≠ .endOfInput := by
    intro hk
    obtain ⟨hl, -⟩ | ⟨hbrace, -⟩ := partOf_eq_ok_iff.mp hpart
    · simp [Token.isLiteral, hk] at hl
    · rw [hk] at hbrace
      cases hbrace
  have htakes := takes_of_next_kind ht hk
  rw [htakes.1]
  exact Nat.lt_succ_self _

theorem advances_readCondition : Advances readCondition :=
  .bind_right Forward.next fun _ => .ite
    ((advances_expect ":" (by decide)).bind_left fun _ => (Forward.takeAllUntil _).bind fun _ =>
      .ite (Forward.get.bind fun _ => .failAt _ _)
        (forward_skipComma.bind fun _ => Forward.get.bind fun _ => .pure _))
    (.failAt _ _)

/-! ## The loops of the parser -/

theorem answer_map {α β : Type} {s : Reader α} {g : α → β} :
    answer ((s >>= fun b => pure (g b) : Reader β) c) = (answer (s c)).map g := by
  cases h : s c with
  | error f d => rw [Window.bind_of_error h]; rfl
  | ok b d => rw [Window.bind_of_ok h]; rfl

/-- A round and then the later ones. -/
theorem answer_push {α β γ : Type} {r : Reader α} {s : Reader β} {push : α → β → γ} :
    answer ((r >>= fun a => s >>= fun b => pure (push a b) : Reader γ) c)
      = follow (r c) fun a d => (answer (s d)).map (push a) := by
  cases h : r c with
  | error f d => rw [Window.bind_of_error h]; rfl
  | ok a d => rw [Window.bind_of_ok h, answer_map]; rfl

/-- The items of a document, up to its end. -/
def documentLoop : Loop where
  Item := Node
  Answer := List Node
  run c := answer (readNodes none c)
  stops c := c.isAt .endOfInput
  exit _ := .ok []
  body := readItem
  push := List.cons
  run_eq c := by
    rw [readNodes_none_eq]
    split
    · rfl
    unfold readItem
    split
    · refine answer_push.trans ?_
      cases h : readCloseTag c with
      | error f d => rw [Window.bind_of_error h]; rfl
      | ok name d => rw [Window.bind_of_ok h]; rfl
    · exact answer_push
  forward := advances_readItem.1
  takes _ h := advances_readItem.2 _ _ _ h

/-- The children of the element that a token opens, up to a closing tag. -/
def childrenLoop (opening : Token) : Loop where
  Item := Node
  Answer := List Node
  run c := answer (readNodes (some opening) c)
  stops c := c.isAt .endOfInput || c.isAt .closeTag
  exit c := if c.isAt .endOfInput then .error ⟨.unterminatedElement, opening.pos⟩ else .ok []
  body := readNode
  push := List.cons
  run_eq c := by
    rw [readNodes_some_eq]
    cases c.isAt .endOfInput with
    | true => rfl
    | false =>
      cases c.isAt .closeTag with
      | true => rfl
      | false => exact answer_push
  forward := advances_readNode.1
  takes _ h := advances_readNode.2 _ _ _ h

/-- The attributes of a start tag, up to its end. -/
def attributesLoop (name : String) (opening : Token) : Loop where
  Item := Attribute
  Answer := List Attribute × Bool
  run c := answer (readAttributes name opening c)
  stops c := c.isAt .gt || c.isAt .selfClose || c.isAt .endOfInput
  exit c :=
    if c.isAt .gt then .ok ([], false)
    else if c.isAt .selfClose then .ok ([], true)
    else .error ⟨.unterminatedTag name, opening.pos⟩
  body := readAttribute
  push a rest := (a :: rest.1, rest.2)
  run_eq c := by
    rw [readAttributes]
    cases c.isAt .gt with
    | true => rfl
    | false =>
      cases c.isAt .selfClose with
      | true => rfl
      | false =>
        cases c.isAt .endOfInput with
        | true => rfl
        | false =>
          simp only [Bool.false_eq_true, if_false, Bool.or_self]
          cases readAttribute c with
          | error f d => rfl
          | ok a d =>
            rw [follow]
            dsimp only
            cases readAttributes name opening d <;> rfl
  forward := advances_readAttribute.1
  takes _ h := advances_readAttribute.2 _ _ _ h

theorem readItems_skip (c : Cursor) (n : Nat) (ts : List Token) :
    readItems (c.skip n) ts = readItems c ts := by
  fun_induction readItems c ts with
  | case1 => rw [readItems]
  | case2 part tokens hl => rw [readItems, if_pos hl]
  | case3 part tokens hl found hcolon =>
    rw [readItems, if_neg hl]
    exact if_pos hcolon
  | case4 part tokens hl found hcolon condition after hnone =>
    rw [readItems, if_neg hl]
    exact (if_neg hcolon).trans (if_pos hnone)
  | case5 part tokens hl found hcolon condition after hsome ih =>
    rw [readItems, if_neg hl]
    refine (if_neg hcolon).trans ((if_neg hsome).trans ?_)
    rw [ih]
    rfl

/-- Before a comma or the end, the comma is left out. -/
theorem skipComma_of_comma (h : ∀ t ∈ c.ahead.head?, isComma t = true) :
    skipComma c = .ok () (c.skip 1) := by
  change (if c.sees .punct "," = true then _ else _ : Reader Unit) c = _
  cases hc : c.ahead with
  | nil =>
    rw [if_neg (by rw [Window.sees_of_nil hc (by decide)]; decide), skip_of_nil hc]
    rfl
  | cons t ts =>
    have hcomma : c.sees .punct "," = true := by
      rw [sees, Window.head_of_ahead hc]
      exact h t (by rw [hc]; rfl)
    rw [if_pos hcomma]
    rfl

/-- A conditional list is read item by item. -/
theorem readItems_ahead (c : Cursor) : readItems c c.ahead = if c.ahead.isEmpty then .ok []
    else follow (readCondition c) fun a d => (readItems d d.ahead).map (List.cons a) := by
  cases hc : c.ahead with
  | nil =>
    rw [readItems]
    rfl
  | cons t ts =>
    have hnext : next c = .ok t (c.skip 1) := by rw [next, Window.head_of_ahead hc]
    have hahead : (c.skip 1).ahead = ts := by simp [skip, hc]
    have hfound : (c.skip 1).head = ts.head?.getD c.ending := by
      rw [head_eq, hahead]
      rfl
    rw [if_neg (by simp), readItems, readCondition, Window.bind_of_ok hnext]
    cases hl : t.isLiteral with
    | false => rfl
    | true =>
      simp only [Bool.not_true, Bool.false_eq_true, if_false, if_true]
      by_cases hcolon : (ts.head?.getD c.ending).has .punct ":" = true
      · have hexpect := expect_eq .punct ":" (c.skip 1)
        rw [sees, hfound, if_pos hcolon] at hexpect
        have hdrop : ((c.skip 1).skip 1).ahead = ts.drop 1 := congrArg (List.drop 1) hahead
        obtain ⟨htake, hrest⟩ := takeAllUntil_eq isComma ((c.skip 1).skip 1)
        rw [hdrop] at htake hrest
        rw [if_neg (by simp [hcolon]), Window.bind_of_ok hexpect, Window.bind_of_ok htake]
        generalize ((c.skip 1).skip 1).reach isComma = n at hrest
        by_cases hnone : (ts.drop 1).takeWhile (!isComma ·) = []
        · rw [if_pos hnone, hnone]
          change _ = Except.error (Fault.mk _ (((c.skip 1).skip 1).skip n).head.pos)
          rw [head_eq, hrest]
          rfl
        · rw [if_neg hnone, if_neg (by simpa using hnone)]
          have hcomma : skipComma (((c.skip 1).skip 1).skip n) = .ok () _ :=
            skipComma_of_comma fun u hu => by
              have hstop := List.head?_dropWhile_not (!isComma ·) (ts.drop 1)
              rw [← hrest, Option.mem_def.mp hu] at hstop
              simpa using hstop
          have hlast : ((((c.skip 1).skip 1).skip n).skip 1).ahead
              = ((ts.drop 1).dropWhile (!isComma ·)).drop 1 := congrArg (List.drop 1) hrest
          rw [Window.bind_of_ok hcomma]
          change _ = (readItems ((((c.skip 1).skip 1).skip n).skip 1) _).map _
          rw [hlast, readItems_skip, readItems_skip, readItems_skip, readItems_skip]
          rfl
      · have hexpect := expect_eq .punct ":" (c.skip 1)
        rw [sees, hfound, if_neg hcolon] at hexpect
        rw [if_pos (by simpa using hcolon), Window.bind_of_error hexpect, follow]

/-- The items of a conditional list, up to its end. -/
def conditionsLoop : Loop where
  Item := String × String
  Answer := List (String × String)
  run c := readItems c c.ahead
  stops c := c.ahead.isEmpty
  exit _ := .ok []
  body := readCondition
  push := List.cons
  run_eq := readItems_ahead
  forward := advances_readCondition.1
  takes _ h := advances_readCondition.2 _ _ _ h

/-- True where no token comes before the one that stops a reading. -/
def halts (stop : Token → Bool) (c : Cursor) : Bool := c.ahead.head?.all stop

theorem ahead_of_halts {stop : Token → Bool} (h : halts stop c = false) :
    ∃ t ts, c.ahead = t :: ts ∧ stop t = false ∧ next c = .ok t (c.skip 1)
      ∧ (c.skip 1).ahead = ts := by
  cases hc : c.ahead with
  | nil => simp [halts, hc] at h
  | cons t ts =>
    exact ⟨t, ts, rfl, by simpa [halts, hc] using h, by rw [next, Window.head_of_ahead hc],
      by simp [skip, hc]⟩

theorem takeWhile_of_halts {stop : Token → Bool} (h : halts stop c = true) :
    (c.ahead.takeWhile fun t => !stop t) = [] := by
  cases hc : c.ahead with
  | nil => rfl
  | cons t ts => rw [List.takeWhile_cons_of_neg (by simpa [halts, hc] using h)]

/-- The parts of a comment, a character data section or a group, up to a token that stops them. -/
def partsLoop (context : EscapeContext) (cause : FaultCause) (stop : Token → Bool) : Loop where
  Item := Part
  Answer := List Part
  run c := readParts context cause (c.ahead.takeWhile fun t => !stop t)
  stops := halts stop
  exit _ := .ok []
  body := readPart context cause
  push := List.cons
  run_eq c := by
    cases h : halts stop c with
    | true => rw [takeWhile_of_halts h]; rfl
    | false =>
      obtain ⟨t, ts, hc, ht, hnext, hts⟩ := ahead_of_halts h
      rw [hc, List.takeWhile_cons_of_pos (by simp [ht]), readParts, readPart,
        Window.bind_of_ok hnext]
      cases partOf context cause t with
      | error f => rfl
      | ok part =>
        change _ = (readParts context cause ((c.skip 1).ahead.takeWhile fun t => !stop t)).map _
        rw [hts]
        cases readParts context cause (ts.takeWhile fun t => !stop t) <;> rfl
  forward := (advances_readPart context cause).1
  takes _ h := (advances_readPart context cause).2 _ _ _ h

/-- The tokens up to one that stops the reading. -/
def tokensLoop (stop : Token → Bool) : Loop where
  Item := Token
  Answer := List Token
  run c := answer (takeAllUntil stop c)
  stops := halts stop
  exit _ := .ok []
  body := next
  push := List.cons
  run_eq c := by
    rw [(takeAllUntil_eq stop c).1]
    cases h : halts stop c with
    | true => rw [takeWhile_of_halts h]; rfl
    | false =>
      obtain ⟨t, ts, hc, ht, hnext, hts⟩ := ahead_of_halts h
      rw [hc, List.takeWhile_cons_of_pos (by simp [ht]), hnext]
      change _ = (answer (takeAllUntil stop (c.skip 1))).map _
      rw [(takeAllUntil_eq stop (c.skip 1)).1, hts]
      rfl
  forward := .next
  takes hs h := by
    obtain ⟨t, ts, hc, -, hnext, hts⟩ := ahead_of_halts hs
    rw [hnext] at h
    injection h with _ h
    rw [← h, hts, hc]
    exact Nat.lt_succ_self _

/-- The arms of a selection, up to its end. -/
def armsLoop : Loop where
  Item := Arm
  Answer := List Arm
  run := armsFrom
  stops c := c.isAt .endOfInput
  exit _ := .ok []
  body := readArm
  push := List.cons
  run_eq c := by
    rw [armsFrom_eq]
    split
    · rfl
    have hround : (do
        let pattern ← readArmHead
        let body ← readArmBody
        let _ ← skipComma
        let arms ← lift (armsFrom (← get))
        return .mk pattern body :: arms : Reader (List Arm))
        = readArm >>= fun arm => (get >>= fun d => lift (armsFrom d)) >>= fun arms =>
          pure (arm :: arms) := by
      simp only [readArm, bind_assoc, pure_bind]
    rw [hround, answer_push]
    cases readArm c with
    | error f d => rfl
    | ok arm d =>
      change (answer (lift (armsFrom d) d)).map _ = (armsFrom d).map _
      cases armsFrom d <;> rfl
  forward := advances_readArm.1
  takes _ h := advances_readArm.2 _ _ _ h

/-- The branches of a choice, as long as another follows. -/
def branchesLoop : Loop where
  Item := Branch
  Answer := List Branch × Option (List Node)
  run c := answer (readBranches c)
  stops c := !(answer (readElseIf c)).isOk
  exit c := answer (readLastBranch c)
  body := readElseIf
  push branch rest := (branch :: rest.1, rest.2)
  run_eq c := by
    have hrun : (readBranches : Reader _) c = (do
        let branch ← readBranch
        if (← get).sees .keyword "else" then do
          let _ ← expect .keyword "else"
          if (← get).sees .keyword "if" then do
            let _ ← expect .keyword "if"
            let (branches, otherwise) ← readBranches
            return (branch :: branches, otherwise)
          else do
            let otherwise ← readBlock
            return ([branch], some otherwise)
        else return ([branch], none) : Reader (List Branch × Option (List Node))) c := by
      rw [readBranches_eq]
      simp only [readBranch, bind_assoc, pure_bind]
    rw [hrun, readElseIf, readLastBranch]
    cases hb : readBranch c with
    | error f d =>
      rw [Window.bind_of_error hb, Window.bind_of_error hb, Window.bind_of_error hb]
      rfl
    | ok branch d =>
      rw [Window.bind_of_ok hb, Window.bind_of_ok hb, Window.bind_of_ok hb]
      have helse := expect_eq .keyword "else" d
      change answer ((if d.sees .keyword "else" = true then _ else _ : Reader _) d)
        = if _ then answer ((if d.sees .keyword "else" = true then _ else _ : Reader _) d) else _
      cases hs : d.sees .keyword "else" with
      | false =>
        rw [hs, if_neg Bool.false_ne_true] at helse
        rw [Window.bind_of_error helse]
        rfl
      | true =>
        rw [hs, if_pos rfl] at helse
        rw [if_pos rfl, if_pos rfl, Window.bind_of_ok helse, Window.bind_of_ok helse,
          Window.bind_of_ok helse]
        have hif := expect_eq .keyword "if" (d.skip 1)
        change answer ((if (d.skip 1).sees .keyword "if" = true then _ else _ : Reader _) _) = _
        cases hs' : (d.skip 1).sees .keyword "if" with
        | false =>
          rw [hs', if_neg Bool.false_ne_true] at hif
          rw [Window.bind_of_error hif]
          rfl
        | true =>
          rw [hs', if_pos rfl] at hif
          rw [if_pos rfl, Window.bind_of_ok hif, Window.bind_of_ok hif]
          exact answer_map
  forward := advances_readElseIf.1
  takes _ h := advances_readElseIf.2 _ _ _ h

/-- The loops of the parser. -/
inductive Repetition where
  | document
  | children (opening : Token)
  | attributes (name : String) (opening : Token)
  | conditions
  | parts (context : EscapeContext) (cause : FaultCause) (stop : Token → Bool)
  | tokens (stop : Token → Bool)
  | arms
  | branches

/-- The loop of a kind. -/
def Repetition.loop : Repetition → Loop
  | document => documentLoop
  | children opening => childrenLoop opening
  | attributes name opening => attributesLoop name opening
  | conditions => conditionsLoop
  | parts context cause stop => partsLoop context cause stop
  | tokens stop => tokensLoop stop
  | arms => armsLoop
  | branches => branchesLoop

end Node

end MarkupTemplate
