import MarkupTemplate.Proofs.Node.Head
import MarkupTemplate.Proofs.Node.Step

/-!
# Nodes wherever they stand

The readers of nodes follow a piece of text into another text: by induction on the tokens ahead,
one step of each reader at a time.

* `Window.tracks_readNode`: one node, whatever stands behind the piece.
* `Window.tracks_readNodes`: all nodes of a piece with nothing behind it.
-/
namespace MarkupTemplate

namespace Window

open Cursor Node

variable {W : Window} {tail : List Token} {c c' : Cursor}

/-! ## Progress -/

theorem lt_of_result {α : Type} {P : Cursor → Prop} {r : Reading (α × { d : Cursor // P d })}
    {a : α} {d : Cursor} (h : result r = .ok a d) : P d := by
  cases r with
  | error e => cases h
  | ok x =>
    injection h with _ h₂
    exact h₂ ▸ x.2.2

theorem lt_of_advances {α : Type} {r : Reader α} (hr : Advances r) {a : α} {d : Cursor}
    (h : r c = .ok a d) : sizeOf d.ahead < sizeOf c.ahead := by
  have hreach := hr.1 c
  rw [h] at hreach
  exact hreach.sizeOf_lt (hr.2 c a d h)

theorem le_of_forward {α : Type} {r : Reader α} (hr : Forward r) {a : α} {d : Cursor}
    (h : r c = .ok a d) : sizeOf d.ahead ≤ sizeOf c.ahead := by
  have hreach := hr c
  rw [h] at hreach
  exact hreach.sizeOf_le

theorem lt_of_readNode {node : Node} {d : Cursor} (h : readNode c = .ok node d) :
    sizeOf d.ahead < sizeOf c.ahead :=
  lt_of_result (P := fun d => sizeOf d.ahead < sizeOf c.ahead) ((readNode_eq_result c).symm.trans h)

theorem lt_of_readBlock {nodes : List Node} {d : Cursor} (h : readBlock c = .ok nodes d) :
    sizeOf d.ahead < sizeOf c.ahead :=
  lt_of_result (P := fun d => sizeOf d.ahead < sizeOf c.ahead) h

theorem lt_of_readArmBody {nodes : List Node} {d : Cursor} (h : readArmBody c = .ok nodes d) :
    sizeOf d.ahead < sizeOf c.ahead :=
  lt_of_result (P := fun d => sizeOf d.ahead < sizeOf c.ahead) h

theorem ne_nil_of_lt {d : Cursor} (h : sizeOf d.ahead < sizeOf c.ahead) : c.ahead ≠ [] := by
  intro hn
  rw [hn] at h
  have hpos : 0 < sizeOf d.ahead := by
    cases d.ahead with
    | nil => simp only [List.nil.sizeOf_spec]; omega
    | cons => simp only [List.cons.sizeOf_spec]; omega
  simp only [List.nil.sizeOf_spec] at h
  omega

theorem children_lt_of_expectKind {kind : TokenKind} (hk : kind ≠ .endOfInput) {t : Token}
    {d : Cursor} (h : expectKind kind c = .ok t d) :
    sizeOf t.children < sizeOf c.ahead ∧ t.kind = kind ∧ c.ahead = t :: d.ahead
      ∧ d.source = c.source := by
  obtain ⟨u, e, hu, h⟩ := bind_eq_ok h
  injection hu with h₁ h₂
  split at h
  · next hkind =>
    injection h with h₃ h₄
    subst h₃ h₄ h₂
    have hne : c.ahead ≠ [] := fun hn => hk (hkind.symm.trans (h₁ ▸ head_kind_of_nil hn))
    obtain ⟨t, ts, hts⟩ := List.exists_cons_of_ne_nil hne
    rw [head_of_ahead hts] at h₁
    subst h₁
    refine ⟨?_, hkind, by simp [skip, hts], rfl⟩
    rw [hts]
    cases t
    simp only [Token.children, List.cons.sizeOf_spec, Token.mk.sizeOf_spec]
    omega
  · exact absurd h failAt_ne_ok

theorem Embeds.isAt_endOfInput_iff_right (h : W.Embeds [] c c') :
    c'.isAt .endOfInput = true ↔ c.ahead = [] := by
  rcases h.cases with ⟨hc, hc'⟩ | ⟨t, ts, t', ts', hc, hc', ht, -⟩
  · simp [hc, Cursor.isAt, head_kind_of_nil hc']
  · simp only [Cursor.isAt, head_of_ahead hc', ht.kind, beq_iff_eq, hc, reduceCtorEq, iff_false]
    exact ht.ne_endOfInput

/-- The nodes `n` characters further on. -/
def shiftNodes (n : Nat) (nodes : List Node) : List Node := nodes.map (Node.shift n)

/-- The branches and the last resort of a choice `n` characters further on. -/
def shiftBranches (n : Nat) (x : List Branch × Option (List Node)) :
    List Branch × Option (List Node) :=
  (x.1.map (Branch.shift n), x.2.map (shiftNodes n))

theorem shiftOption_eq_map (n : Nat) (nodes : Option (List Node)) :
    Node.shiftOption n nodes = nodes.map (shiftNodes n) := by
  cases nodes with
  | none => rfl
  | some nodes => rw [Node.shiftOption, Node.shiftAll_eq_map]; rfl

/-! ## Nodes -/

mutual

theorem tracks_readBlock {tail : List Token} {c c' : Cursor} (h : W.Embeds tail c c') :
    W.Tracks tail c c' (W.Moves shiftNodes) readBlock readBlock := by
  refine .congr (readBlock_eq c) (readBlock_eq c') ?_
  refine (tracks_expectKind h (by decide)).bind fun t d t' d' ht hs hE => .get_bind ?_
  have hlt := (children_lt_of_expectKind (by decide) ht).1
  intro nodes e hr
  cases hn : readNodes none (d.inside t) with
  | error f k => rw [hn] at hr; cases hr
  | ok ns k =>
    rw [hn] at hr
    obtain ⟨ns', k', hn', hm, -⟩ := tracks_readNodes (hE.inside hs) ns k hn
    rw [hn']
    exact Tracks.pure hE hm nodes e hr
termination_by (sizeOf c.ahead, 0)
decreasing_by exact Prod.Lex.left _ _ hlt

theorem tracks_readNodes {c c' : Cursor} (h : W.Embeds [] c c') :
    W.Tracks [] c c' (W.Moves shiftNodes) (readNodes none) (readNodes none) := by
  refine .congr (readNodes_none_eq c) (readNodes_none_eq c') ?_
  refine .ite ?_ (fun _ => .pure h rfl) fun hend => ?_
  · rw [isAt_endOfInput_iff h, h.isAt_endOfInput_iff_right]
  have hne : c.ahead ≠ [] := fun hn => hend ((isAt_endOfInput_iff h).mpr hn)
  rw [h.isAt hne]
  refine .ite Iff.rfl (fun _ => ?_) fun _ => ?_
  · refine (tracks_readCloseTag clear_nil.1.1 h).bind fun name d name' d' hr hname hE => ?_
    have hlt := lt_of_advances advances_readCloseTag hr
    subst hname
    refine (tracks_readNodes hE).bind fun ns _ ns' _ _ hm hE => .pure hE ?_
    exact congrArg (Node.text ("</" ++ name ++ ">") :: ·) hm
  · refine (tracks_readNode clear_nil h).bind fun node d node' d' hr hn hE => ?_
    have hlt := lt_of_readNode hr
    refine (tracks_readNodes hE).bind fun ns _ ns' _ _ hm hE => .pure hE ?_
    exact List.cons_eq_cons.mpr ⟨hn, hm⟩
termination_by (sizeOf c.ahead, 3)
decreasing_by
  · exact Prod.Lex.left _ _ hlt
  · exact Prod.Lex.right _ (by omega)
  · exact Prod.Lex.left _ _ hlt

theorem tracks_readChildren {tail : List Token} {c c' : Cursor} (hclear : W.Clear tail)
    (t t' : Token) (h : W.Embeds tail c c') :
    W.Tracks tail c c' (W.Moves shiftNodes) (readNodes (some t)) (readNodes (some t')) := by
  refine .congr (readNodes_some_eq t c) (readNodes_some_eq t' c') ?_
  by_cases hne : c.ahead = []
  · rw [(isAt_endOfInput_iff h).mpr hne]
    exact .failAt
  rw [h.isAt hne, h.isAt hne]
  refine .ite Iff.rfl (fun _ => .failAt) fun _ => .ite Iff.rfl (fun _ => .pure h rfl) fun _ => ?_
  refine (tracks_readNode hclear h).bind fun node d node' d' hr hn hE => ?_
  have hlt := lt_of_readNode hr
  refine (tracks_readChildren hclear t t' hE).bind fun ns _ ns' _ _ hm hE => .pure hE ?_
  exact List.cons_eq_cons.mpr ⟨hn, hm⟩
termination_by (sizeOf c.ahead, 3)
decreasing_by
  · exact Prod.Lex.right _ (by omega)
  · exact Prod.Lex.left _ _ hlt

theorem tracks_readElement {tail : List Token} {c c' : Cursor} (hclear : W.Clear tail)
    (h : W.Embeds tail c c') :
    W.Tracks tail c c' (W.Moves Node.shift) readElement readElement := by
  refine (tracks_readTagHead hclear.1 h).bind fun tag d tag' d' hr htag hE => ?_
  have hlt := lt_of_advances advances_readTagHead hr
  simp only [Moves, TagHead.shift, TagHead.mk.injEq] at htag
  obtain ⟨hname, hattributes, hself, -⟩ := htag
  refine .ite (by rw [hself]) (fun _ => .pure hE ?_) fun _ => ?_
  · simp only [Moves, Node.shift, hname, hattributes, Node.shiftAll]
  refine (tracks_readChildren hclear tag.opening tag'.opening hE).bind
    fun ns e ns' _ _ hm hE => ?_
  refine (tracks_readCloseTag hclear.1.1 hE).bind fun close _ close' _ _ hclose hE => .pure hE ?_
  simp only [Moves, shiftNodes] at hm
  simp only [Moves, Node.shift, hname, hattributes, Node.shiftAll_eq_map, hm, hclose]
termination_by (sizeOf c.ahead, 1)
decreasing_by exact Prod.Lex.left _ _ hlt

theorem tracks_readBranches {tail : List Token} {c c' : Cursor} (hclear : W.Clear tail)
    (h : W.Embeds tail c c') :
    W.Tracks tail c c' (W.Moves shiftBranches) readBranches readBranches := by
  refine .congr (readBranches_eq c) (readBranches_eq c') ?_
  refine (tracks_readBranchHead h).bind fun head d head' d' hr hhead hE => ?_
  have hle := le_of_forward forward_readBranchHead hr
  refine (tracks_readBlock hE).bind fun body e body' e' hbody hm hE => .get_bind ?_
  have hlt := lt_of_readBlock hbody
  have hbranch : (Branch.mk head'.condition body' head'.pattern head'.pos).shift W.before.length
      = (Branch.mk head.condition body head.pattern head.pos).shift W.before'.length := by
    simp only [Moves, BranchHead.shift, BranchHead.mk.injEq, shiftNodes] at hhead hm
    simp only [Branch.shift, Node.shiftAll_eq_map, hm, hhead.1, hhead.2.1, hhead.2.2]
  refine .ite (by rw [hE.sees (by decide) hclear.2]) (fun hs => ?_) fun _ => .pure hE ?_
  · refine (tracks_expect hE (by decide)).bind fun t f t' f' hf _ hE => .get_bind ?_
    have hlt' := lt_of_advances (advances_expect _ (by decide)) hf
    by_cases hne : f.ahead = []
    · -- behind `else` a branch or a block has to come
      refine .of_fails fun x k hx => ?_
      rw [sees_of_nil hne (by decide)] at hx
      obtain ⟨nodes, g, hg, -⟩ := bind_eq_ok hx
      exact ne_nil_of_lt (lt_of_readBlock hg) hne
    refine .ite (by rw [sees, sees, (hE.head hne).has]) (fun _ => ?_) fun _ => ?_
    · refine (tracks_expect hE (by decide)).bind fun u g u' g' hg _ hE => ?_
      have hlt'' := lt_of_advances (advances_expect _ (by decide)) hg
      refine (tracks_readBranches hclear hE).bind fun x _ x' _ _ hx hE => .pure hE ?_
      simp only [Moves, shiftBranches, Prod.mk.injEq] at hx
      simp only [Moves, shiftBranches, List.map_cons, hbranch, hx.1, hx.2]
    · refine (tracks_readBlock hE).bind fun ns _ ns' _ _ hns hE => .pure hE ?_
      simp only [Moves] at hns
      simp only [Moves, shiftBranches, List.map_cons, hbranch, List.map_nil, Option.map_some, hns]
  · simp only [Moves, shiftBranches, List.map_cons, hbranch]; rfl
termination_by (sizeOf c.ahead, 1)
decreasing_by
  · exact Prod.Lex.right' _ hle (by omega)
  · exact Prod.Lex.left _ _ (by omega)
  · exact Prod.Lex.left _ _ (by omega)

theorem tracks_readArmBody {tail : List Token} {c c' : Cursor} (hclear : W.Clear tail)
    (h : W.Embeds tail c c') :
    W.Tracks tail c c' (W.Moves shiftNodes) readArmBody readArmBody := by
  refine .congr (readArmBody_eq c) (readArmBody_eq c') ?_
  by_cases hne : c.ahead = []
  · refine .of_fails fun x k hx => ?_
    rw [isAt_of_nil hne (by decide)] at hx
    obtain ⟨node, g, hg, -⟩ := bind_eq_ok hx
    exact ne_nil_of_lt (lt_of_readNode hg) hne
  rw [h.isAt hne]
  refine .ite Iff.rfl (fun _ => tracks_readBlock h) fun _ => ?_
  exact (tracks_readNode hclear h).bind fun node _ node' _ _ hn hE =>
    .pure hE (congrArg (fun n => [n]) hn)
termination_by (sizeOf c.ahead, 3)
decreasing_by
  · exact Prod.Lex.right _ (by omega)
  · exact Prod.Lex.right _ (by omega)

theorem armsFrom_moves {c c' : Cursor} (h : W.Embeds [] c c') {arms : List Arm}
    (ha : armsFrom c = .ok arms) : ∃ arms', armsFrom c' = .ok arms'
      ∧ W.Moves (fun n => List.map (Arm.shift n)) arms arms' := by
  rcases armsFrom_eq_ok_iff.mp ha with
    ⟨hend, rfl⟩ | ⟨hend, p, d, body, e, f, rest, h₁, h₂, h₃, h₄, rfl⟩
  · refine ⟨[], armsFrom_eq_ok_iff.mpr (.inl ⟨?_, rfl⟩), rfl⟩
    rw [h.isAt_endOfInput_iff_right]
    exact (isAt_endOfInput_iff h).mp hend
  · have hle := le_of_forward forward_readArmHead h₁
    have hlt := lt_of_readArmBody h₂
    have hle' := le_of_forward forward_skipComma h₃
    obtain ⟨p', d', hp, rfl, hE⟩ := tracks_readArmHead h p d h₁
    obtain ⟨body', e', hbody, hm, hE⟩ := tracks_readArmBody clear_nil hE body e h₂
    obtain ⟨⟨⟩, f', hf, -, hE⟩ := tracks_skipComma hE () f h₃
    obtain ⟨rest', hrest, hms⟩ := armsFrom_moves hE h₄
    have hend' : c'.isAt .endOfInput = false := by
      rw [← Bool.not_eq_true, h.isAt_endOfInput_iff_right, ← isAt_endOfInput_iff h]
      simp [hend]
    refine ⟨_, armsFrom_eq_ok_iff.mpr (.inr ⟨hend', p, d', body', e', f', rest', hp, hbody, hf,
      hrest, rfl⟩), ?_⟩
    simp only [Moves, shiftNodes] at hm hms
    simp only [Moves, List.map_cons, Arm.shift, Node.shiftAll_eq_map, hm, hms]
termination_by (sizeOf c.ahead, 4)
decreasing_by
  · exact Prod.Lex.right' _ hle (by omega)
  · exact Prod.Lex.left _ _ (by omega)

theorem tracks_readControl {tail : List Token} {c c' : Cursor} {t t' : Token}
    (hclear : W.Clear tail) (h : W.Embeds tail c c') (ht : W.Same t t') :
    W.Tracks tail c c' (W.Moves Node.shift) (readControl t) (readControl t') := by
  refine .ite (by rw [ht.has]) (fun _ => ?_) fun _ => ?_
  · exact (tracks_readClosure h).bind fun v _ v' _ _ hv hE => .pure hE (congrArg Node.closure hv)
  refine .ite (by rw [ht.has]) (fun _ => ?_) fun _ => ?_
  · refine (tracks_expect h (by decide)).bind fun u d u' d' hd _ hE => ?_
    have hlt := lt_of_advances (advances_expect _ (by decide)) hd
    refine (tracks_readBranches hclear hE).bind fun x _ x' _ _ hx hE => .pure hE ?_
    simp only [Moves, shiftBranches, Prod.mk.injEq] at hx
    simp only [Moves, Node.shift, Branch.shiftAll_eq_map, shiftOption_eq_map, hx.1, hx.2]
  refine .ite (by rw [ht.has]) (fun _ => ?_) fun _ => ?_
  · refine (tracks_readMatchHead h).bind fun x d x' d' hd hx hE => ?_
    have hlt := lt_of_advances advances_readMatchHead hd
    refine (tracks_expectKind hE (by decide)).bind fun g e g' e' hg hs hE => .get_bind ?_
    have hlt' := (children_lt_of_expectKind (by decide) hg).1
    refine (Tracks.lift hE fun arms ha => armsFrom_moves (hE.inside hs) ha).bind
      fun arms _ arms' _ _ hm hE => .pure hE ?_
    simp only [Moves, Prod.mk.injEq] at hx hm
    simp only [Moves, Node.shift, Arm.shiftAll_eq_map, hm, hx.1, hx.2]
  refine .ite (by rw [ht.has]) (fun _ => ?_) fun _ => ?_
  · refine (tracks_readForHead h).bind fun x d x' d' hd hx hE => ?_
    have hlt := lt_of_advances advances_readForHead hd
    refine (tracks_readBlock hE).bind fun body _ body' _ _ hm hE => .pure hE ?_
    simp only [Moves, Prod.mk.injEq, shiftNodes] at hx hm
    simp only [Moves, Node.shift, Node.shiftAll_eq_map, hm, hx.1, hx.2.1, hx.2.2]
  exact .ite (by rw [ht.has]) (fun _ => tracks_readBinding h) fun _ => .failAt
termination_by (sizeOf c.ahead, 1)
decreasing_by
  · exact Prod.Lex.left _ _ hlt
  · exact Prod.Lex.left _ _ (Nat.lt_trans hlt' hlt)
  · exact Prod.Lex.left _ _ hlt

theorem tracks_readNode {tail : List Token} {c c' : Cursor} (hclear : W.Clear tail)
    (h : W.Embeds tail c c') :
    W.Tracks tail c c' (W.Moves Node.shift) readNode readNode := by
  by_cases hne : c.ahead = []
  · exact .of_fails fun node d hd => ne_nil_of_lt (lt_of_readNode hd) hne
  have ht := h.head hne
  refine .congr (readNode_eq c) (readNode_eq c') ?_
  rw [ht.kind]
  cases c.head.kind
  case commentOpen => exact tracks_readComment h
  case declaration => exact tracks_readDeclaration h
  case instruction => exact tracks_readInstruction h
  case lt => exact tracks_readElement hclear h
  case string => exact tracks_readText (by decide) h
  case number => exact tracks_readText (by decide) h
  case brace => exact tracks_readExpression h
  all_goals exact tracks_readControl hclear h ht
termination_by (sizeOf c.ahead, 2)
decreasing_by all_goals exact Prod.Lex.right _ (by omega)

end

end Window

end MarkupTemplate
