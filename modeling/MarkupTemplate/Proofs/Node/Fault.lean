import MarkupTemplate.Proofs.Cursor.Fault
import MarkupTemplate.Proofs.Node.Tracks
import MarkupTemplate.Proofs.Token.Segment

/-!
# Where the readers of nodes fail

The readers of attributes and nodes look at tokens of the document and of the groups in it, and
report no offset but theirs.

* `points_readAttribute`: attributes.
* `Node.points_readTagHead`, `Node.points_readDeclaration`: the parts of a node without nodes.
* `Node.armsFrom_eq`: one step of the reader of arms.
* `Node.points_readNode`, `Node.points_readNodes`: nodes, by induction on the tokens ahead.
-/
namespace MarkupTemplate

open Cursor

variable {S : Nat → Prop} {c : Cursor} {t : Token} {ts : List Token} {f : Fault}

/-! ## Attributes -/

theorem known_of_expressionOf {context : EscapeContext} (ht : t.Known S)
    (h : expressionOf context t = .error f) : f.Known S :=
  known_of_splitExpression ht (expressionOf_eq_error_iff.mp h)

theorem known_of_partOf {context : EscapeContext} {cause : FaultCause} (hc : cause.Plain)
    (ht : t.Known S) (h : partOf context cause t = .error f) : f.Known S := by
  obtain he | rfl := error_of_partOf h
  · exact known_of_expressionOf ht he
  · exact ⟨ht.pos, hc⟩

theorem known_of_readParts {context : EscapeContext} {cause : FaultCause}
    (hc : cause.Plain) (hts : ∀ t ∈ ts, t.Known S)
    (h : readParts context cause ts = .error f) : f.Known S := by
  induction ts with
  | nil => cases h
  | cons t ts ih =>
    obtain ⟨ht, hts⟩ := List.forall_mem_cons.mp hts
    rcases Scan.bind_error h with h | ⟨part, -, h⟩
    · exact known_of_partOf hc ht h
    · rcases Scan.bind_error h with h | ⟨parts, -, h⟩
      · exact ih hts h
      · cases h

/-- The first of some tokens, or the end when there is none. -/
theorem known_head?_getD (h : c.Known S) (hts : ∀ t ∈ ts, t.Known S) :
    (ts.head?.getD c.ending).Known S := by
  cases ts with
  | nil => exact h.ending
  | cons t ts => exact hts t List.mem_cons_self

theorem known_of_readItems (h : c.Known S) (hts : ∀ t ∈ ts, t.Known S)
    (hf : readItems c ts = .error f) : f.Known S := by
  fun_induction readItems c ts with
  | case1 => cases hf
  | case2 part tokens =>
    cases hf
    exact ⟨(hts part List.mem_cons_self).pos, trivial⟩
  | case3 part tokens =>
    cases hf
    exact ⟨(known_head?_getD h fun t ht => hts t (List.mem_cons_of_mem part ht)).pos, trivial⟩
  | case4 part tokens _ found hcolon condition after hnil =>
    have hafter : ∀ t ∈ after, t.Known S := fun t ht =>
      hts t (List.mem_cons_of_mem part (List.mem_of_mem_drop
        ((List.dropWhile_sublist _).subset ht)))
    cases hf
    exact ⟨(known_head?_getD h hafter).pos, trivial⟩
  | case5 part tokens _ found hcolon condition after hne ih =>
    have hafter : ∀ t ∈ after.drop 1, t.Known S := fun t ht =>
      hts t (List.mem_cons_of_mem part (List.mem_of_mem_drop
        ((List.dropWhile_sublist _).subset (List.mem_of_mem_drop ht))))
    rcases Scan.bind_error hf with hf | ⟨items, -, hf⟩
    · exact ih hafter hf
    · cases hf

theorem points_readClosureBody (h : c.Known S) : Points S (fun _ => True) c readClosureBody := by
  refine .get_bind (.ite (fun _ => (points_next h).then_pure _) fun _ => ?_)
  refine (points_takeUntil h _ (by decide)).bind ?_
  intro _ d _ _ hd
  refine (points_next hd).bind ?_
  intro _ e _ _ he
  exact .get_bind (.pure he trivial)

theorem points_readClosure (h : c.Known S) : Points S (fun _ => True) c readClosure := by
  refine (points_expect h .punct "|").bind ?_
  intro start d _ hstart hd
  refine (points_expectKind hd .ident).bind ?_
  intro binding e _ _ he
  refine (points_expect he .punct "|").bind ?_
  intro _ e' _ _ he'
  refine (points_readClosureBody he').bind ?_
  intro body g _ _ hg
  exact .ite (fun _ => .failAt hstart trivial) fun _ => .pure hg trivial

theorem points_readAttributeValue (h : c.Known S) :
    Points S (fun _ => True) c readAttributeValue := by
  refine .get_bind ?_
  have hnext := points_next h
  refine .ite (fun _ => hnext.then_pure _) fun _ => ?_
  refine .ite (fun _ => hnext.bind fun _ _ _ _ hd => ?_) fun _ => ?_
  · exact .lift_pure hd (fun f hf => known_of_expressionOf h.head hf) _
  refine .ite (fun hk => hnext.bind fun _ _ _ _ hd => ?_) fun _ => ?_
  · have hin : (c.inside c.head).Known S :=
      .inside h.head (Token.isGroup_of_kind (b := .square) hk)
    exact .lift_pure hd (fun f hf => known_of_readItems hin hin.ahead hf) _
  refine .ite (fun _ => hnext.bind fun _ _ _ _ hd => ?_) fun _ => ?_
  · have hplain : FaultCause.expectedGroupPart.Plain := trivial
    exact .lift_pure hd (fun f hf =>
      known_of_readParts hplain (fun t ht => h.head.child ht) hf) _
  exact .ite (fun _ => (points_readClosure h).then_pure _) fun _ => .failAt h.head trivial

theorem points_readAttribute (h : c.Known S) : Points S (fun _ => True) c readAttribute := by
  refine (points_readName h).bind ?_
  intro name d _ _ hd
  refine .get_bind (.ite (fun _ => ?_) fun _ => .pure hd trivial)
  refine (points_next hd).bind ?_
  intro _ e _ _ he
  exact (points_readAttributeValue he).then_pure _

namespace Node

/-! ## Heads -/

theorem points_readPattern (h : c.Known S) (stop : Token → Bool) {what : String}
    (hwhat : Text.OneLine what) :
    Points S (fun _ => True) c (readPattern stop what) := by
  refine .get_bind ((points_takeUntil h stop hwhat).bind ?_)
  intro body d _ _ hd
  exact .ite (fun _ => .failAt h.head trivial) fun _ => .get_bind (.pure hd trivial)

theorem points_readHead (h : c.Known S) {what : String} (hwhat : Text.OneLine what) :
    Points S (fun _ => True) c (readHead what) := by
  have hbefore : Text.OneLine ("'\x7b' to open the " ++ what ++ " block") :=
    (Text.oneLine_append _ _).mpr ⟨(Text.oneLine_append _ _).mpr ⟨by decide, hwhat⟩, by decide⟩
  refine .get_bind ((points_takeUntil h _ hbefore).bind ?_)
  intro body d _ _ hd
  exact .ite (fun _ => .failAt h.head hwhat) fun _ => .get_bind (.pure hd trivial)

theorem points_readBranchHead (h : c.Known S) : Points S (fun _ => True) c readBranchHead := by
  refine .get_bind (.ite (fun _ => ?_) fun _ => (points_readHead h (by decide)).then_pure _)
  refine (points_next h).bind ?_
  intro _ d _ _ hd
  refine (points_readPattern hd _ (by decide)).bind ?_
  intro pattern e _ _ he
  refine (points_next he).bind ?_
  intro _ g _ _ hg
  exact (points_readHead hg (by decide)).then_pure _

theorem points_readMatchHead (h : c.Known S) : Points S (fun _ => True) c readMatchHead := by
  refine (points_expect h _ _).bind ?_
  intro _ d _ _ hd
  exact (points_readHead hd (by decide)).then_pure _

theorem points_readForHead (h : c.Known S) : Points S (fun _ => True) c readForHead := by
  refine (points_expect h _ _).bind ?_
  intro start d _ _ hd
  refine (points_readPattern hd _ (by decide)).bind ?_
  intro pattern e _ _ he
  refine (points_next he).bind ?_
  intro _ g _ _ hg
  exact (points_readHead hg (by decide)).then_pure _

theorem points_readArmHead (h : c.Known S) : Points S (fun _ => True) c readArmHead := by
  refine (points_readPattern h _ (by decide)).bind ?_
  intro pattern d _ _ hd
  exact (points_next hd).then_pure _

theorem points_skipComma (h : c.Known S) : Points S (fun _ => True) c skipComma :=
  .get_bind (.ite (fun _ => (points_next h).then_pure _) fun _ => .pure h trivial)

/-! ## Markup without children -/

theorem points_readComment (h : c.Known S) : Points S (fun _ => True) c readComment := by
  refine (points_expectKind h _).bind ?_
  intro start d _ hstart hd
  refine (points_takeAllUntil hd _).bind ?_
  intro tokens e _ htokens he
  have hplain : (FaultCause.expectedPayloadPart EscapeContext.comment.name).Plain :=
    show Text.OneLine EscapeContext.comment.name by decide
  refine (Points.lift (Q := fun _ => True) he (fun _ _ => trivial)
    fun f hf => known_of_readParts hplain htokens hf).bind ?_
  intro parts g _ _ hg
  exact .get_bind (.ite (fun _ => (points_next hg).then_pure _) fun _ => .failAt hstart.1 trivial)

theorem mem_of_cdataBody? {body : Token} (h : cdataBody? t = some body) : body ∈ t.children := by
  obtain ⟨-, name, hchildren, -⟩ := cdataBody?_eq_some_iff.mp h
  rw [hchildren]
  exact List.mem_cons_of_mem _ List.mem_cons_self

theorem points_readCdata {body : Token} (h : c.Known S) (hb : body.Known S) :
    Points S (fun _ => True) c (readCdata body) := by
  refine (points_expectKind h _).bind ?_
  intro _ d _ _ hd
  refine (points_expectKind hd _).bind ?_
  intro _ e _ _ he
  refine (points_expectKind he _).bind ?_
  intro _ g _ _ hg
  have hplain : (FaultCause.expectedPayloadPart EscapeContext.cdata.name).Plain :=
    show Text.OneLine EscapeContext.cdata.name by decide
  exact .lift_pure hg (fun f hf => known_of_readParts hplain (fun _ ht => hb.child ht) hf) _

theorem points_readDoctype (h : c.Known S) : Points S (fun _ => True) c readDoctype := by
  refine (points_expectKind h _).bind ?_
  intro start d _ hstart hd
  refine (points_takeUntil hd _ (by decide)).bind ?_
  intro tokens e _ _ he
  refine (points_next he).bind ?_
  intro _ g _ _ hg
  exact .ite (fun _ => .failAt hstart.1 trivial) fun _ => .get_bind (.pure hg trivial)

theorem points_readDeclaration (h : c.Known S) : Points S (fun _ => True) c readDeclaration := by
  refine .get_bind ?_
  cases hb : cdataBody? (c.peek 1) with
  | some body => exact points_readCdata h ((h.peek 1).child (mem_of_cdataBody? hb))
  | none => exact points_readDoctype h

theorem points_readInstruction (h : c.Known S) : Points S (fun _ => True) c readInstruction := by
  refine (points_expectKind h _).bind ?_
  intro start d _ _ hd
  refine (points_takeUntil hd _ (by decide)).bind ?_
  intro tokens e _ _ he
  refine (points_next he).bind ?_
  intro _ g _ _ hg
  exact .get_bind (.pure hg trivial)

theorem points_readBinding (h : c.Known S) : Points S (fun _ => True) c readBinding := by
  refine (points_expect h _ _).bind ?_
  intro start d _ hstart hd
  refine (points_readPattern hd _ (by decide)).bind ?_
  intro pattern e _ _ he
  refine (points_next he).bind ?_
  intro _ e₁ _ _ he₁
  refine (points_takeUntil he₁ _ (by decide)).bind ?_
  intro value e₂ _ _ he₂
  refine (points_next he₂).bind ?_
  intro _ g _ _ hg
  exact .ite (fun _ => .failAt hstart trivial) fun _ => .get_bind (.pure hg trivial)

theorem points_readText (h : c.Known S) (kind : TokenKind) :
    Points S (fun _ => True) c (readText kind) :=
  (points_expectKind h _).then_pure _

theorem points_readExpression (h : c.Known S) : Points S (fun _ => True) c readExpression := by
  refine (points_expectKind h _).bind ?_
  intro t d _ ht hd
  exact .lift_pure hd (fun f hf => known_of_expressionOf ht.1 hf) _

/-! ## Tags -/

theorem points_readAttributes (name : String) {opening : Token} (ho : opening.Known S)
    (h : c.Known S) : Points S (fun _ => True) c (readAttributes name opening) := by
  induction hn : c.ahead.length using Nat.strongRecOn generalizing c with
  | ind n ih =>
    refine .congr (Window.readAttributes_eq name opening c) ?_
    have hnext := points_next h
    refine .ite (fun _ => hnext.then_pure _) fun _ => ?_
    refine .ite (fun _ => hnext.then_pure _) fun _ => ?_
    refine .ite (fun _ => .failAt ho trivial) fun _ => ?_
    refine (points_readAttribute h).bind fun a d ha _ hd => ?_
    have hlt := advances_readAttribute.2 c a d ha
    exact (ih _ (hn ▸ hlt) hd rfl).then_pure _

theorem points_readTagHead (h : c.Known S) :
    Points S (fun tag => tag.opening.Known S) c readTagHead := by
  refine (points_expectKind h _).bind ?_
  intro opening d _ ho hd
  refine (points_readName hd).bind ?_
  intro name e _ _ he
  refine (points_readAttributes _ ho.1 he).bind ?_
  intro _ g _ _ hg
  exact .pure hg ho.1

/-! ## Nodes -/

theorem plain_unexpected (t : Token) : (unexpected t).Plain := by
  unfold unexpected
  split
  · trivial
  · split <;> trivial

/-- A reading without the cursor at which it stopped. -/
def answer {α : Type} : EStateM.Result Fault Cursor α → Except Fault α
  | .ok a _ => .ok a
  | .error f _ => .error f

/-- A step of a reading whose fault is kept without its cursor. -/
theorem mapError_bind_eq_answer {α β : Type} {P : Cursor → Prop} {c : Cursor}
    {r : Reading (α × { d : Cursor // P d })} {s : Reader α}
    {k : α × { d : Cursor // P d } → Except Fault β} {g : α → Reader β} (hr : result r = s c)
    (hk : ∀ a d, k (a, d) = answer (g a d.1)) :
    (r.mapError (·.1) >>= k) = answer ((s >>= g) c) := by
  change _ = answer (EStateM.bind s g c)
  rw [EStateM.bind, ← hr]
  cases r with
  | error e => rfl
  | ok x => exact hk x.1 x.2

/-- The arms of a selection: none at the end, else one arm and the arms after it. -/
theorem armsFrom_eq (c : Cursor) : armsFrom c = answer ((
    if c.isAt .endOfInput then return []
    else do
      let pattern ← readArmHead
      let body ← readArmBody
      let _ ← skipComma
      let arms ← lift (armsFrom (← get))
      return .mk pattern body :: arms : Reader (List Arm)) c) := by
  rw [armsFrom]
  split
  · rfl
  · refine mapError_bind_eq_answer (result_pass _) fun pattern d => ?_
    refine mapError_bind_eq_answer (s := readArmBody) rfl fun body e => ?_
    refine mapError_bind_eq_answer (result_pass _) fun _ f => ?_
    change _ = answer ((lift (armsFrom f.1) >>= fun arms => _ : Reader (List Arm)) f.1)
    dsimp only
    cases armsFrom f.1 <;> rfl

mutual

theorem points_readBlock {c : Cursor} (h : c.Known S) : Points S (fun _ => True) c readBlock := by
  refine .congr (readBlock_eq c) ?_
  refine (points_expectKind h .brace).bind fun t d ht hk hd => .get_bind ?_
  have hlt := (Window.children_lt_of_expectKind (by decide) ht).1
  have hin := points_readNodes
    (Cursor.Known.inside (c := d) hk.1 (Token.isGroup_of_kind (b := .curly) hk.2))
  cases hn : readNodes none (d.inside t) with
  | ok nodes e => exact .pure hd trivial
  | error f e =>
    refine ⟨nofun, fun f' e' hf => ?_⟩
    change EStateM.Result.error f d = _ at hf
    cases hf
    exact hin.2 f e hn
termination_by (sizeOf c.ahead, 0)
decreasing_by exact Prod.Lex.left _ _ hlt

theorem points_readNodes {c : Cursor} (h : c.Known S) :
    Points S (fun _ => True) c (readNodes none) := by
  refine .congr (readNodes_none_eq c) ?_
  refine .ite (fun _ => .pure h trivial) fun _ => .ite (fun _ => ?_) fun _ => ?_
  · refine (points_readCloseTag h).bind fun name d hr _ hd => ?_
    have hlt := Window.lt_of_advances advances_readCloseTag hr
    exact (points_readNodes hd).then_pure _
  · refine (points_readNode h).bind fun node d hr _ hd => ?_
    have hlt := Window.lt_of_readNode hr
    exact (points_readNodes hd).then_pure _
termination_by (sizeOf c.ahead, 3)
decreasing_by
  · exact Prod.Lex.left _ _ hlt
  · exact Prod.Lex.right _ (by omega)
  · exact Prod.Lex.left _ _ hlt

theorem points_readChildren {c : Cursor} {opening : Token} (ho : opening.Known S)
    (h : c.Known S) : Points S (fun _ => True) c (readNodes (some opening)) := by
  refine .congr (readNodes_some_eq opening c) ?_
  refine .ite (fun _ => .failAt ho trivial) fun _ => .ite (fun _ => .pure h trivial) fun _ => ?_
  refine (points_readNode h).bind fun node d hr _ hd => ?_
  have hlt := Window.lt_of_readNode hr
  exact (points_readChildren ho hd).then_pure _
termination_by (sizeOf c.ahead, 3)
decreasing_by
  · exact Prod.Lex.right _ (by omega)
  · exact Prod.Lex.left _ _ hlt

theorem points_readElement {c : Cursor} (h : c.Known S) :
    Points S (fun _ => True) c readElement := by
  refine (points_readTagHead h).bind fun tag d hr ho hd => ?_
  have hlt := Window.lt_of_advances advances_readTagHead hr
  refine .ite (fun _ => .pure hd trivial) fun _ => ?_
  exact (points_readChildren ho hd).bind fun _ _ _ _ hd => (points_readCloseTag hd).bind
    fun _ _ _ _ hd => .pure hd trivial
termination_by (sizeOf c.ahead, 1)
decreasing_by exact Prod.Lex.left _ _ hlt

theorem points_readBranches {c : Cursor} (h : c.Known S) :
    Points S (fun _ => True) c readBranches := by
  refine .congr (readBranches_eq c) ?_
  refine (points_readBranchHead h).bind fun head d hr _ hd => ?_
  have hle := Window.le_of_forward forward_readBranchHead hr
  refine (points_readBlock hd).bind fun body e hbody _ he => .get_bind ?_
  have hlt := Window.lt_of_readBlock hbody
  refine .ite (fun _ => ?_) fun _ => .pure he trivial
  refine (points_expect he _ _).bind fun _ f hf _ hknown => .get_bind ?_
  have hlt' := Window.lt_of_advances (advances_expect _ (by decide)) hf
  refine .ite (fun _ => ?_) fun _ => ?_
  · refine (points_expect hknown _ _).bind fun _ g hg _ hknown => ?_
    have hlt'' := Window.lt_of_advances (advances_expect _ (by decide)) hg
    exact (points_readBranches hknown).then_pure _
  · exact (points_readBlock hknown).then_pure _
termination_by (sizeOf c.ahead, 1)
decreasing_by
  · exact Prod.Lex.right' _ hle (by omega)
  · exact Prod.Lex.left _ _ (by omega)
  · exact Prod.Lex.left _ _ (by omega)

theorem points_readArmBody {c : Cursor} (h : c.Known S) :
    Points S (fun _ => True) c readArmBody := by
  refine .congr (readArmBody_eq c) (.ite (fun _ => points_readBlock h) fun _ => ?_)
  exact (points_readNode h).then_pure _
termination_by (sizeOf c.ahead, 3)
decreasing_by
  · exact Prod.Lex.right _ (by omega)
  · exact Prod.Lex.right _ (by omega)

theorem known_of_armsFrom {c : Cursor} (h : c.Known S) {f : Fault}
    (hf : armsFrom c = .error f) : f.Known S := by
  have hpoints : Points S (fun _ => True) c (
      if c.isAt .endOfInput then return []
      else do
        let pattern ← readArmHead
        let body ← readArmBody
        let _ ← skipComma
        let arms ← lift (armsFrom (← get))
        return .mk pattern body :: arms : Reader (List Arm)) := by
    refine .ite (fun _ => .pure h trivial) fun _ => ?_
    refine (points_readArmHead h).bind fun pattern d hr _ hd => ?_
    have hle := Window.le_of_forward forward_readArmHead hr
    refine (points_readArmBody hd).bind fun body e hbody _ he => ?_
    have hlt := Window.lt_of_readArmBody hbody
    refine (points_skipComma he).bind fun _ g hg _ hknown => .get_bind ?_
    have hle' := Window.le_of_forward forward_skipComma hg
    exact .lift_pure hknown (fun f hf => known_of_armsFrom hknown hf) _
  rw [armsFrom_eq] at hf
  unfold answer at hf
  split at hf
  · cases hf
  · next f' d hr =>
    cases hf
    exact hpoints.2 f d hr
termination_by (sizeOf c.ahead, 4)
decreasing_by
  · exact Prod.Lex.right' _ hle (by omega)
  · exact Prod.Lex.left _ _ (by omega)

theorem points_readControl {c : Cursor} {t : Token} (ht : t.Known S) (h : c.Known S) :
    Points S (fun _ => True) c (readControl t) := by
  refine .ite (fun _ => (points_readClosure h).then_pure _)
    fun _ => ?_
  refine .ite (fun _ => ?_) fun _ => ?_
  · refine (points_expect h _ _).bind fun _ d hr _ hd => ?_
    have hlt := Window.lt_of_advances (advances_expect _ (by decide)) hr
    exact (points_readBranches hd).then_pure _
  refine .ite (fun _ => ?_) fun _ => ?_
  · refine (points_readMatchHead h).bind fun _ d hr _ hd => ?_
    have hlt := Window.lt_of_advances advances_readMatchHead hr
    refine (points_expectKind hd .brace).bind fun g e hg hk he => .get_bind ?_
    have hlt' := (Window.children_lt_of_expectKind (by decide) hg).1
    have hin := Cursor.Known.inside (c := e) hk.1 (Token.isGroup_of_kind (b := .curly) hk.2)
    exact .lift_pure he (fun f hf => known_of_armsFrom hin hf) _
  refine .ite (fun _ => ?_) fun _ => ?_
  · refine (points_readForHead h).bind fun _ d hr _ hd => ?_
    have hlt := Window.lt_of_advances advances_readForHead hr
    exact (points_readBlock hd).then_pure _
  exact .ite (fun _ => points_readBinding h) fun _ => .failAt ht (plain_unexpected t)
termination_by (sizeOf c.ahead, 1)
decreasing_by
  · exact Prod.Lex.left _ _ hlt
  · exact Prod.Lex.left _ _ (Nat.lt_trans hlt' hlt)
  · exact Prod.Lex.left _ _ hlt

theorem points_readNode {c : Cursor} (h : c.Known S) : Points S (fun _ => True) c readNode := by
  refine .congr (readNode_eq c) ?_
  cases c.head.kind
  case commentOpen => exact points_readComment h
  case declaration => exact points_readDeclaration h
  case instruction => exact points_readInstruction h
  case lt => exact points_readElement h
  case string => exact points_readText h .string
  case number => exact points_readText h .number
  case brace => exact points_readExpression h
  all_goals exact points_readControl h.head h
termination_by (sizeOf c.ahead, 2)
decreasing_by all_goals exact Prod.Lex.right _ (by omega)

end

end Node

end MarkupTemplate
