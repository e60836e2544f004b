import MarkupTemplate.Node.Read
import MarkupTemplate.Proofs.Node.Attribute

/-!
# Heads and tags wherever they stand

The readers of the parts of a node that contain no nodes follow a piece of text into another text.

* `Window.tracks_readPattern`, `Window.tracks_readHead`: the source texts of control flow.
* `Window.tracks_readDeclaration`, `Window.tracks_readComment`: markup without children.
* `Window.tracks_readTagHead`: a start tag.
-/
namespace MarkupTemplate

namespace Node

/-- The head of a branch `n` characters further on. -/
def BranchHead.shift (n : Nat) (h : BranchHead) : BranchHead := { h with pos := h.pos + n }

/-- The start tag `n` characters further on. -/
def TagHead.shift (n : Nat) (h : TagHead) : TagHead :=
  { h with attributes := h.attributes.map (Attribute.shift n), opening := h.opening.shift n }

/-- The body of a character data section stands in brackets behind the name in brackets. -/
theorem cdataBody?_eq_some_iff {t body : Token} : cdataBody? t = some body ↔
    t.kind = .bracket ∧ ∃ name, t.children = [name, body] ∧ name.has .ident "CDATA" = true
      ∧ body.kind = .bracket := by
  rw [cdataBody?]
  split
  · next name body' hk hc =>
    simp only [hk, hc, List.cons.injEq, and_true, Option.ite_none_right_eq_some,
      Option.some.injEq, Bool.and_eq_true, beq_iff_eq, true_and]
    constructor
    · rintro ⟨⟨hname, hbody⟩, rfl⟩
      exact ⟨name, ⟨rfl, rfl⟩, hname, hbody⟩
    · rintro ⟨name, ⟨rfl, rfl⟩, hname, hbody⟩
      exact ⟨⟨hname, hbody⟩, rfl⟩
  · next hno =>
    simp only [reduceCtorEq, false_iff]
    rintro ⟨hk, name, hc, -⟩
    exact hno name body hk hc

end Node

namespace Window

open Cursor Node

variable {W : Window} {tail : List Token} {c c' : Cursor} {t t' : Token} {ts ts' : List Token}

/-! ## Heads -/

theorem SameAll.isEmpty (h : W.SameAll ts ts') : ts'.isEmpty = ts.isEmpty := by
  rw [Bool.eq_iff_iff, List.isEmpty_iff_length_eq_zero, List.isEmpty_iff_length_eq_zero,
    h.length_eq]

theorem tracks_readPattern {stop : Token → Bool} (hs : Timeless stop) (what : String)
    (h : W.Embeds tail c c') :
    W.Tracks tail c c' Eq (readPattern stop what) (readPattern stop what) := by
  refine .get_bind ((tracks_takeUntil hs h what).bind fun ts d ts' d' _ hts hE => ?_)
  refine .ite (by rw [hts.isEmpty]) (fun _ => .failAt) fun _ => ?_
  exact .get_bind (.pure hE (raw_eq hE.source hE.source' hts).symm)

theorem tracks_readHead (what : String) (h : W.Embeds tail c c') :
    W.Tracks tail c c' Eq (readHead what) (readHead what) := by
  refine .get_bind ((tracks_takeUntil (timeless_kind .brace) h _).bind
    fun ts d ts' d' _ hts hE => ?_)
  refine .ite (by rw [hts.isEmpty]) (fun _ => .failAt) fun _ => ?_
  exact .get_bind (.pure hE (raw_eq hE.source hE.source' hts).symm)

/-- What a run of tokens is read for, when it is not empty, leaves the cursor before the token that
stopped it. -/
theorem raw_eq_ok {start : Token} {cause : FaultCause} {stop : Token → Bool} {what s : String}
    {d : Cursor}
    (h : (takeUntil stop what >>= fun ts =>
      if ts.isEmpty then Cursor.failAt cause start else get >>= fun c => pure (c.raw ts)) c
        = .ok s d) : c.ahead ≠ [] ∧ d.ahead ≠ [] := by
  obtain ⟨ts, e, hts, h⟩ := bind_eq_ok h
  obtain ⟨hne, hlt, -⟩ := takeUntil_eq_ok hts
  split at h
  · exact absurd h failAt_ne_ok
  · injection h with _ h₂
    exact ⟨List.ne_nil_of_length_pos (Nat.zero_lt_of_lt hlt), h₂ ▸ hne⟩

theorem readPattern_eq_ok {stop : Token → Bool} {what s : String} {d : Cursor}
    (h : readPattern stop what c = .ok s d) : c.ahead ≠ [] ∧ d.ahead ≠ [] := raw_eq_ok h

theorem readHead_eq_ok {what s : String} {d : Cursor} (h : readHead what c = .ok s d) :
    c.ahead ≠ [] ∧ d.ahead ≠ [] := raw_eq_ok h

theorem tracks_readBranchHead (h : W.Embeds tail c c') :
    W.Tracks tail c c' (W.Moves BranchHead.shift) readBranchHead readBranchHead := by
  refine .get_bind ?_
  by_cases hne : c.ahead = []
  · refine .of_fails fun a d hr => ?_
    rw [if_neg (by simp [Token.has, head_kind_of_nil hne])] at hr
    obtain ⟨s, e, hs, -⟩ := bind_eq_ok hr
    exact (readHead_eq_ok hs).1 hne
  have ht := h.head hne
  refine .ite (by rw [ht.has]) (fun _ => ?_) fun _ => ?_
  · refine (tracks_next h hne).bind fun _ _ _ _ _ _ hE => ?_
    refine (tracks_readPattern (timeless_has .punct "=") _ hE).bind fun p _ p' _ hr hp hE => ?_
    refine (tracks_next hE (readPattern_eq_ok hr).2).bind fun _ _ _ _ _ _ hE => ?_
    refine (tracks_readHead _ hE).bind fun s _ s' _ _ hs hE => .pure hE ?_
    subst hp hs
    simp only [Moves, BranchHead.shift, ht.pos]
  · refine (tracks_readHead _ h).bind fun s _ s' _ _ hs hE => .pure hE ?_
    subst hs
    simp only [Moves, BranchHead.shift, ht.pos]

theorem tracks_readMatchHead (h : W.Embeds tail c c') :
    W.Tracks tail c c' (W.Moves fun n (x : String × Nat) => (x.1, x.2 + n)) readMatchHead
      readMatchHead := by
  refine (tracks_expect h (by decide)).bind fun start _ start' _ _ ht hE => ?_
  refine (tracks_readHead _ hE).bind fun s _ s' _ _ hs hE => .pure hE ?_
  subst hs
  simp only [Moves, ht.pos]

theorem tracks_readForHead (h : W.Embeds tail c c') :
    W.Tracks tail c c' (W.Moves fun n (x : String × String × Nat) => (x.1, x.2.1, x.2.2 + n))
      readForHead readForHead := by
  refine (tracks_expect h (by decide)).bind fun start _ start' _ _ ht hE => ?_
  refine (tracks_readPattern (timeless_has .keyword "in") _ hE).bind fun p _ p' _ hr hp hE => ?_
  refine (tracks_next hE (readPattern_eq_ok hr).2).bind fun _ _ _ _ _ _ hE => ?_
  refine (tracks_readHead _ hE).bind fun s _ s' _ _ hs hE => .pure hE ?_
  subst hp hs
  simp only [Moves, ht.pos]

theorem tracks_readArmHead (h : W.Embeds tail c c') :
    W.Tracks tail c c' Eq readArmHead readArmHead := by
  refine (tracks_readPattern (timeless_kind .arrow) _ h).bind fun p _ p' _ hr hp hE => ?_
  exact (tracks_next hE (readPattern_eq_ok hr).2).bind fun _ _ _ _ _ _ hE => .pure hE hp

theorem tracks_skipComma (h : W.Embeds [] c c') :
    W.Tracks [] c c' Eq skipComma skipComma := by
  refine .get_bind (.ite (by rw [h.sees (by decide) (by simp)]) (fun hs => ?_)
    fun _ => .pure h rfl)
  exact (tracks_next h (ne_nil_of_sees (by decide) hs)).bind fun _ _ _ _ _ _ hE => .pure hE rfl

/-! ## Markup without children -/

theorem takeAllUntil_eq_ok {stop : Token → Bool} {d : Cursor}
    (h : takeAllUntil stop c = .ok ts d) : d = c.skip (c.reach stop) := by
  injection h with _ h₂
  exact h₂.symm

theorem tracks_readComment (h : W.Embeds tail c c') :
    W.Tracks tail c c' (W.Moves Node.shift) readComment readComment := by
  refine (tracks_expectKind h (by decide)).bind fun start d start' d' _ _ hE => ?_
  by_cases hlt : d.reach (·.kind == .commentClose) < d.ahead.length
  · refine (tracks_takeAllUntil (timeless_kind .commentClose) hE hlt).bind
      fun ts e ts' e' he hts hE => ?_
    refine (Tracks.lift hE fun ps hps => readParts_moves hts hps).bind
      fun ps f ps' f' hf hps hE => ?_
    have hne : f.ahead ≠ [] := by
      rw [(lift_eq_ok hf).2, takeAllUntil_eq_ok he, skip, ne_eq, List.drop_eq_nil_iff]
      omega
    refine .get_bind (.ite (by rw [isAt, isAt, (hE.head hne).kind]) (fun _ => ?_) fun _ => .failAt)
    exact (tracks_next hE hne).bind fun _ _ _ _ _ _ hE => .pure hE (congrArg Node.comment hps)
  · -- without a closing marker the comment is not read
    refine .of_fails fun a e hr => ?_
    obtain ⟨ts, f, hf, hr⟩ := bind_eq_ok hr
    obtain ⟨ps, g, hg, hr⟩ := bind_eq_ok hr
    have hnil : g.ahead = [] := by
      rw [(lift_eq_ok hg).2, takeAllUntil_eq_ok hf, skip, List.drop_eq_nil_iff]
      omega
    change (if g.isAt .commentClose = true then _ else _ : Reader Node) g = _ at hr
    rw [isAt_of_nil hnil (by decide)] at hr
    exact failAt_ne_ok hr

theorem cdataBody?_of_ne (h : t.kind ≠ .bracket) : cdataBody? t = none :=
  Option.eq_none_iff_forall_ne_some.mpr fun _ hb => h (cdataBody?_eq_some_iff.mp hb).1

theorem cdataBody?_of_same (h : W.Same t t') :
    (cdataBody? t = none ∧ cdataBody? t' = none)
      ∨ ∃ b b', cdataBody? t = some b ∧ cdataBody? t' = some b' ∧ W.Same b b' := by
  by_cases hk : t.kind = .bracket
  · have hc := h.children
    unfold cdataBody?
    rw [h.kind, hk]
    match t.children, t'.children, hc with
    | [], [], _ => exact .inl ⟨rfl, rfl⟩
    | [_], [_], _ => exact .inl ⟨rfl, rfl⟩
    | [name, body], [name', body'], hc =>
      simp only [hc.1.has, hc.2.1.kind]
      split
      · exact .inr ⟨body, body', rfl, rfl, hc.2.1⟩
      · exact .inl ⟨rfl, rfl⟩
    | _ :: _ :: _ :: _, _ :: _ :: _ :: _, _ => exact .inl ⟨rfl, rfl⟩
    | [], _ :: _, hc => exact hc.elim
    | _ :: _, [], hc => exact hc.elim
    | [_], _ :: _ :: _, hc => exact hc.2.elim
    | _ :: _ :: _, [_], hc => exact hc.2.elim
    | [_, _], _ :: _ :: _ :: _, hc => exact hc.2.2.elim
    | _ :: _ :: _ :: _, [_, _], hc => exact hc.2.2.elim
  · exact .inl ⟨cdataBody?_of_ne hk, cdataBody?_of_ne (h.kind ▸ hk)⟩

theorem SameAll.getElem? : ∀ {ts ts' : List Token} {n : Nat} {t : Token}, W.SameAll ts ts' →
    ts[n]? = some t → ∃ t', ts'[n]? = some t' ∧ W.Same t t'
  | [], [], _, _, _, h => by simp at h
  | _ :: _, t' :: _, 0, _, hs, h => by
    obtain rfl := Option.some.inj h
    exact ⟨t', rfl, hs.1⟩
  | _ :: _, _ :: _, _ + 1, _, hs, h => by
    rw [List.getElem?_cons_succ] at h ⊢
    exact SameAll.getElem? hs.2 h
  | [], _ :: _, _, _, h, _ => h.elim
  | _ :: _, [], _, _, h, _ => h.elim

theorem Embeds.peek (h : W.Embeds tail c c') {n : Nat} (hn : n < c.ahead.length) :
    W.Same (c.peek n) (c'.peek n) := by
  obtain ⟨ts, hts, hs⟩ := h.ahead
  obtain ⟨t', ht', hsame⟩ := hs.getElem? (List.getElem?_eq_getElem hn)
  rw [Cursor.peek, Cursor.peek, hts, List.getElem?_append_left (by rw [hs.length_eq]; exact hn),
    ht', List.getElem?_eq_getElem hn]
  exact hsame

theorem tracks_readCdata (h : W.Embeds tail c c') (ht : W.Same t t') :
    W.Tracks tail c c' (W.Moves Node.shift) (readCdata t) (readCdata t') := by
  refine (tracks_expectKind h (by decide)).bind fun _ _ _ _ _ _ hE => ?_
  refine (tracks_expectKind hE (by decide)).bind fun _ _ _ _ _ _ hE => ?_
  refine (tracks_expectKind hE (by decide)).bind fun _ _ _ _ _ _ hE => ?_
  exact (Tracks.lift hE fun ps hps => readParts_moves ht.children hps).bind
    fun ps _ ps' _ _ hps hE => .pure hE (congrArg Node.cdata hps)

theorem tracks_readDoctype (h : W.Embeds tail c c') :
    W.Tracks tail c c' (W.Moves Node.shift) readDoctype readDoctype := by
  refine (tracks_expectKind h (by decide)).bind fun start _ start' _ _ _ hE => ?_
  refine (tracks_takeUntil (timeless_kind .gt) hE _).bind fun ts d ts' d' hr hts hE => ?_
  refine (tracks_next hE (takeUntil_eq_ok hr).1).bind fun _ _ _ _ _ _ hE => ?_
  refine .ite (by rw [hts.isEmpty]) (fun _ => .failAt) fun _ => .get_bind (.pure hE ?_)
  rw [joined_eq hE.source hE.source' hts]; rfl

theorem tracks_readDeclaration (h : W.Embeds tail c c') :
    W.Tracks tail c c' (W.Moves Node.shift) readDeclaration readDeclaration := by
  refine .get_bind ?_
  by_cases hlt : 1 < c.ahead.length
  · rcases cdataBody?_of_same (h.peek hlt) with ⟨h₁, h₂⟩ | ⟨b, b', h₁, h₂, hb⟩
    · rw [h₁, h₂]
      exact tracks_readDoctype h
    · rw [h₁, h₂]
      exact tracks_readCdata h hb
  · -- a declaration has to be closed, so the look-ahead is not beyond the piece
    refine .of_fails fun a d hr => ?_
    have hnone : c.ahead[1]? = none := List.getElem?_eq_none (by omega)
    rw [peek, hnone, Option.getD_none, cdataBody?_of_ne (by simp [ending, Token.flat, Token.kind])]
      at hr
    obtain ⟨start, e, he, hr⟩ := bind_eq_ok hr
    obtain ⟨ts, f, hf, -⟩ := bind_eq_ok hr
    have hlt' := (takeUntil_eq_ok hf).2.1
    have hadv := (advances_expectKind (by decide)).2 c start e he
    omega

theorem tracks_readInstruction (h : W.Embeds tail c c') :
    W.Tracks tail c c' (W.Moves Node.shift) readInstruction readInstruction := by
  refine (tracks_expectKind h (by decide)).bind fun start _ start' _ _ _ hE => ?_
  refine (tracks_takeUntil (timeless_kind .instructionEnd) hE _).bind
    fun ts d ts' d' hr hts hE => ?_
  refine (tracks_next hE (takeUntil_eq_ok hr).1).bind fun _ _ _ _ _ _ hE => .get_bind ?_
  refine .pure hE ?_
  rw [joined_eq hE.source hE.source' hts]; rfl

theorem tracks_readBinding (h : W.Embeds tail c c') :
    W.Tracks tail c c' (W.Moves Node.shift) readBinding readBinding := by
  refine (tracks_expect h (by decide)).bind fun start _ start' _ _ ht hE => ?_
  refine (tracks_readPattern (timeless_has .punct "=") _ hE).bind fun p _ p' _ hr hp hE => ?_
  refine (tracks_next hE (readPattern_eq_ok hr).2).bind fun _ _ _ _ _ _ hE => ?_
  refine (tracks_takeUntil (timeless_has .punct ";") hE _).bind fun ts d ts' d' hr hts hE => ?_
  refine (tracks_next hE (takeUntil_eq_ok hr).1).bind fun _ _ _ _ _ _ hE => ?_
  refine .ite (by rw [hts.isEmpty]) (fun _ => .failAt) fun _ => .get_bind (.pure hE ?_)
  subst hp
  simp only [Moves, Node.shift, ht.pos, raw_eq hE.source hE.source' hts]

theorem tracks_readText {kind : TokenKind} (hk : kind ≠ .endOfInput) (h : W.Embeds tail c c') :
    W.Tracks tail c c' (W.Moves Node.shift) (readText kind) (readText kind) := by
  refine (tracks_expectKind h hk).bind fun t _ t' _ _ ht hE => .pure hE ?_
  rw [ht.value]; rfl

theorem tracks_readExpression (h : W.Embeds tail c c') :
    W.Tracks tail c c' (W.Moves Node.shift) readExpression readExpression := by
  refine (tracks_expectKind h (by decide)).bind fun t _ t' _ _ ht hE => ?_
  exact (Tracks.lift hE fun e he => expressionOf_moves ht he).bind
    fun e _ e' _ _ he hE => .pure hE (congrArg Node.expression he)

/-! ## Tags -/

theorem Embeds.isAt (h : W.Embeds tail c c') (hne : c.ahead ≠ []) (kind : TokenKind) :
    c'.isAt kind = c.isAt kind := by
  rw [Cursor.isAt, Cursor.isAt, (h.head hne).kind]

/-- The attributes and the flag of a start tag, `n` characters further on. -/
def shiftAttributes (n : Nat) (x : List Attribute × Bool) : List Attribute × Bool :=
  (x.1.map (Attribute.shift n), x.2)

/-- One step of the reading of attributes. -/
theorem readAttributes_eq (name : String) (opening : Token) (c : Cursor) :
    readAttributes name opening c = (if c.isAt .gt then do
        let _ ← next
        return ([], false)
      else if c.isAt .selfClose then do
        let _ ← next
        return ([], true)
      else if c.isAt .endOfInput then Cursor.failAt (.unterminatedTag name) opening
      else do
        let a ← readAttribute
        let x ← readAttributes name opening
        return (a :: x.1, x.2) : Reader (List Attribute × Bool)) c := by
  fun_cases readAttributes name opening c with
  | case1 hg => rw [if_pos hg]; rfl
  | case2 hg hs => rw [if_neg hg, if_pos hs]; rfl
  | case3 hg hs he => rw [if_neg hg, if_neg hs, if_pos he]; rfl
  | case4 hg hs he f d h => rw [if_neg hg, if_neg hs, if_neg he, bind_of_error h]
  | case5 hg hs he a d h f e hx =>
    rw [if_neg hg, if_neg hs, if_neg he, bind_of_ok h, bind_of_error hx]
  | case6 hg hs he a d h as s e hx =>
    rw [if_neg hg, if_neg hs, if_neg he, bind_of_ok h, bind_of_ok hx]; rfl

theorem tracks_readAttributes (hclear : W.EndsAttribute tail) (name : String)
    (opening opening' : Token) (h : W.Embeds tail c c') :
    W.Tracks tail c c' (W.Moves shiftAttributes) (readAttributes name opening)
      (readAttributes name opening') := by
  induction hn : c.ahead.length using Nat.strongRecOn generalizing c c' with
  | ind n ih =>
    refine .congr (readAttributes_eq name opening c) (readAttributes_eq name opening' c') ?_
    by_cases hne : c.ahead = []
    · have hend : c.isAt .endOfInput = true := by simp [isAt, head_kind_of_nil hne]
      rw [isAt_of_nil hne (by decide), isAt_of_nil hne (by decide), hend]
      exact .failAt
    rw [h.isAt hne, h.isAt hne, h.isAt hne]
    have hnext := tracks_next h hne
    refine .ite Iff.rfl (fun _ => ?_) fun _ => .ite Iff.rfl (fun _ => ?_) fun _ =>
      .ite Iff.rfl (fun _ => .failAt) fun _ => ?_
    · exact hnext.bind fun _ _ _ _ _ _ hE => .pure hE rfl
    · exact hnext.bind fun _ _ _ _ _ _ hE => .pure hE rfl
    · refine (tracks_readAttribute hclear h).bind fun a e a' e' ha hm hE => ?_
      refine (ih _ (hn ▸ advances_readAttribute.2 c a e ha) hE rfl).bind
        fun x _ x' _ _ hx hE => .pure hE ?_
      simp only [Moves, shiftAttributes, Prod.mk.injEq, List.map_cons] at hm hx ⊢
      rw [hm, hx.1, hx.2]
      exact ⟨rfl, rfl⟩

theorem tracks_readTagHead (hclear : W.EndsAttribute tail) (h : W.Embeds tail c c') :
    W.Tracks tail c c' (W.Moves TagHead.shift) readTagHead readTagHead := by
  refine (tracks_expectKind h (by decide)).bind fun opening _ opening' _ _ ho hE => ?_
  refine (tracks_readName hclear.1 hE).bind fun name _ name' _ _ hn hE => ?_
  subst hn
  refine (tracks_readAttributes hclear name opening opening' hE).bind
    fun x _ x' _ _ hx hE => .pure hE ?_
  simp only [Moves, shiftAttributes, Prod.mk.injEq] at hx
  have hopening : opening'.shift W.before.length = opening.shift W.before'.length := ho.1
  simp only [Moves, TagHead.shift, hx.1, hx.2, hopening]

end Window

end MarkupTemplate
