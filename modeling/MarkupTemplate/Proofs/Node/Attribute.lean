import MarkupTemplate.Node.Attribute
import MarkupTemplate.Proofs.Cursor.Tracks
import MarkupTemplate.Proofs.Node.Shift

/-!
# Attributes wherever they stand

The readers of attributes, expressions and closures follow a piece of text into another text.

* `expressionOf_eq_ok_iff`, `partOf_eq_ok_iff`: the expression or part that a token stands for.
* `Window.expressionOf_moves`: the two sides of an expression in braces.
* `Window.tracks_readAttribute`: an attribute.
-/
namespace MarkupTemplate

/-! ## What a token stands for -/

section

variable {context : EscapeContext} {cause : FaultCause} {t : Token} {f : Fault}

/-- An expression consists of what its group is split into, and of where the group starts. -/
theorem expressionOf_eq_ok_iff {e : Expression} : expressionOf context t = .ok e ↔
    Cursor.splitExpression t = .ok (e.source, e.spec) ∧ e.context = context ∧ e.pos = t.pos := by
  rw [expressionOf]
  cases Cursor.splitExpression t with
  | error f => simp [Except.map]
  | ok x =>
    obtain ⟨source, spec⟩ := x
    obtain ⟨source', spec', context', pos⟩ := e
    simp only [Except.map, Except.ok.injEq, Expression.mk.injEq, Prod.mk.injEq]
    constructor
    · rintro ⟨rfl, rfl, rfl, rfl⟩
      exact ⟨⟨rfl, rfl⟩, rfl, rfl⟩
    · rintro ⟨⟨rfl, rfl⟩, rfl, rfl⟩
      exact ⟨rfl, rfl, rfl, rfl⟩

theorem expressionOf_eq_error_iff :
    expressionOf context t = .error f ↔ Cursor.splitExpression t = .error f := by
  rw [expressionOf]
  cases Cursor.splitExpression t <;> simp [Except.map]

/-- A part is a literal, or the expression in braces. -/
theorem partOf_eq_ok_iff {p : Part} : partOf context cause t = .ok p ↔
    (t.isLiteral = true ∧ p = .literal t.value)
      ∨ (t.kind = .brace ∧ ∃ e, expressionOf context t = .ok e ∧ p = .expression e) := by
  rw [partOf]
  split
  · next hl =>
    have hk : t.kind ≠ .brace := by
      intro hk
      simp [Token.isLiteral, hk] at hl
    simp [hl, hk, eq_comm]
  split
  · next hl hk =>
    cases expressionOf context t <;> simp [hl, hk, Except.map, eq_comm]
  · next hl hk => simp [hl, hk]

theorem error_of_partOf (h : partOf context cause t = .error f) :
    expressionOf context t = .error f ∨ f = ⟨cause, t.pos⟩ := by
  rw [partOf] at h
  split at h
  · cases h
  split at h
  · cases he : expressionOf context t with
    | ok e =>
      rw [he] at h
      cases h
    | error g =>
      rw [he] at h
      cases h
      exact .inl rfl
  · exact .inr (Except.error.inj h).symm

end

namespace Window

open Cursor

variable {W : Window} {tail : List Token} {c c' : Cursor} {t t' : Token} {ts ts' : List Token}

/-! ## Expressions -/

theorem SameAll.find? {f : Token → Bool} (hf : Timeless f) : ∀ {ts ts' : List Token},
    W.SameAll ts ts' → (ts.find? f = none ∧ ts'.find? f = none)
      ∨ ∃ u u', ts.find? f = some u ∧ ts'.find? f = some u' ∧ W.Same u u'
  | [], [], _ => .inl ⟨rfl, rfl⟩
  | t :: ts, t' :: ts', h => by
    have ht := h.1.test hf
    cases hft : f t with
    | true =>
      exact .inr ⟨t, t', List.find?_cons_of_pos hft, List.find?_cons_of_pos (ht.trans hft), h.1⟩
    | false =>
      rw [List.find?_cons_of_neg (by simp [hft]), List.find?_cons_of_neg (by simp [ht, hft])]
      exact SameAll.find? hf h.2
  | [], _ :: _, h => h.elim
  | _ :: _, [], h => h.elim

theorem timeless_has (kind : TokenKind) (value : String) : Timeless (·.has kind value) := by
  intro t n
  simp [Token.has]

theorem timeless_kind (kind : TokenKind) : Timeless (·.kind == kind) := by
  intro t n
  simp

theorem splitSpec_eq (h : W.Same t t') : splitSpec t' = splitSpec t := by
  have hp := h.pos
  unfold splitSpec
  rcases h.children.find? (timeless_has .punct ";") with ⟨h₁, h₂⟩ | ⟨u, u', h₁, h₂, hu⟩
  · simp only [h₁, h₂, h.inner]
  · have hup := hu.pos
    have hus := hu.stop
    have h₃ : u'.pos - (t'.pos + 1) = u.pos - (t.pos + 1) := by omega
    have h₄ : u'.stop - (t'.pos + 1) = u.stop - (t.pos + 1) := by omega
    simp only [h₁, h₂, h.inner, h₃, h₄]

theorem splitExpression_of_same (h : W.Same t t') {x : String × Option String}
    (hx : splitExpression t = .ok x) : splitExpression t' = .ok x := by
  unfold splitExpression at hx ⊢
  rw [h.value, splitSpec_eq h]
  split at hx
  · cases hx
  · next hv =>
    rw [if_neg hv]
    simp only at hx ⊢
    split at hx
    · cases hx
    · next hs => rwa [if_neg hs]

theorem expressionOf_moves (h : W.Same t t') {context : EscapeContext} {e : Expression}
    (he : expressionOf context t = .ok e) :
    ∃ e', expressionOf context t' = .ok e' ∧ W.Moves Expression.shift e e' := by
  obtain ⟨hsplit, hcontext, hpos⟩ := expressionOf_eq_ok_iff.mp he
  refine ⟨{ e with pos := t'.pos },
    expressionOf_eq_ok_iff.mpr ⟨splitExpression_of_same h hsplit, hcontext, rfl⟩, ?_⟩
  simp only [Moves, Expression.shift, hpos, h.pos]

theorem partOf_moves (h : W.Same t t') {context : EscapeContext} {cause : FaultCause} {p : Part}
    (hp : partOf context cause t = .ok p) :
    ∃ p', partOf context cause t' = .ok p' ∧ W.Moves Part.shift p p' := by
  obtain ⟨hl, rfl⟩ | ⟨hk, e, he, rfl⟩ := partOf_eq_ok_iff.mp hp
  · have hvalue : Part.literal t.value = .literal t'.value := congrArg Part.literal h.value.symm
    exact ⟨_, partOf_eq_ok_iff.mpr (.inl ⟨h.isLiteral.trans hl, hvalue⟩), rfl⟩
  · obtain ⟨e', he', hm⟩ := expressionOf_moves h he
    exact ⟨_, partOf_eq_ok_iff.mpr (.inr ⟨h.kind.trans hk, e', he', rfl⟩),
      congrArg Part.expression hm⟩

theorem readParts_moves {context : EscapeContext} {cause : FaultCause} :
    ∀ {ts ts' : List Token} {ps : List Part}, W.SameAll ts ts' →
      readParts context cause ts = .ok ps → ∃ ps', readParts context cause ts' = .ok ps'
        ∧ W.Moves (fun n => List.map (Part.shift n)) ps ps'
  | [], [], ps, _, h => by
    obtain rfl := Except.ok.inj h
    exact ⟨[], rfl, rfl⟩
  | t :: ts, t' :: ts', ps, hs, h => by
    obtain ⟨p, hp, h⟩ := Scan.bind_ok h
    obtain ⟨qs, hqs, h⟩ := Scan.bind_ok h
    obtain rfl := Except.ok.inj h
    obtain ⟨p', hp', hm⟩ := partOf_moves hs.1 hp
    obtain ⟨qs', hqs', hms⟩ := readParts_moves hs.2 hqs
    refine ⟨p' :: qs', ?_, ?_⟩
    · simp only [readParts, hp', hqs', bind, Except.bind]
      rfl
    · simp only [Moves, List.map_cons, List.cons.injEq] at hm hms ⊢
      exact ⟨hm, hms⟩
  | [], _ :: _, _, h, _ => h.elim
  | _ :: _, [], _, h, _ => h.elim

/-! ## Conditional lists -/

theorem SameAll.takeWhile {f : Token → Bool} (hf : Timeless f) : ∀ {ts ts' : List Token},
    W.SameAll ts ts' → W.SameAll (ts.takeWhile f) (ts'.takeWhile f)
  | [], [], _ => trivial
  | t :: ts, t' :: ts', h => by
    have ht := h.1.test hf
    cases hft : f t with
    | true =>
      rw [List.takeWhile_cons_of_pos hft, List.takeWhile_cons_of_pos (ht.trans hft)]
      exact ⟨h.1, SameAll.takeWhile hf h.2⟩
    | false => simp [ht, hft, SameAll]
  | [], _ :: _, h => h.elim
  | _ :: _, [], h => h.elim

theorem SameAll.dropWhile {f : Token → Bool} (hf : Timeless f) : ∀ {ts ts' : List Token},
    W.SameAll ts ts' → W.SameAll (ts.dropWhile f) (ts'.dropWhile f)
  | [], [], _ => trivial
  | t :: ts, t' :: ts', h => by
    have ht := h.1.test hf
    cases hft : f t with
    | true =>
      rw [List.dropWhile_cons_of_pos hft, List.dropWhile_cons_of_pos (ht.trans hft)]
      exact SameAll.dropWhile hf h.2
    | false =>
      rw [List.dropWhile_cons_of_neg (by simp [hft]),
        List.dropWhile_cons_of_neg (by simp [ht, hft])]
      exact h
  | [], _ :: _, h => h.elim
  | _ :: _, [], h => h.elim

theorem timeless_comma : Timeless (!isComma ·) := fun t n =>
  congrArg (!·) (timeless_has .punct "," t n)

theorem readItems_eq_ok {t : Token} {ts : List Token} {items : List (String × String)}
    (h : readItems c (t :: ts) = .ok items) :
    t.isLiteral = true ∧ (∃ colon us, ts = colon :: us ∧ colon.has .punct ":" = true
      ∧ us.takeWhile (!isComma ·) ≠ [] ∧ ∃ rest, readItems c ((us.dropWhile (!isComma ·)).drop 1)
        = .ok rest ∧ items = (t.value, c.raw (us.takeWhile (!isComma ·))) :: rest) := by
  rw [readItems] at h
  split at h
  · cases h
  next hl =>
  simp only at h
  split at h
  · cases h
  next hcolon =>
  split at h
  · cases h
  next hne =>
  obtain ⟨rest, hr, h⟩ := Scan.bind_ok h
  obtain rfl := Except.ok.inj h
  cases ts with
  | nil => exact absurd rfl hne
  | cons colon us =>
    exact ⟨by simpa using hl, colon, us, rfl, by simpa using hcolon, hne, rest, hr, rfl⟩

theorem readItems_of_ok {t colon : Token} {us : List Token} {rest : List (String × String)}
    (hl : t.isLiteral = true) (hcolon : colon.has .punct ":" = true)
    (hne : us.takeWhile (!isComma ·) ≠ [])
    (hr : readItems c ((us.dropWhile (!isComma ·)).drop 1) = .ok rest) :
    readItems c (t :: colon :: us)
      = .ok ((t.value, c.raw (us.takeWhile (!isComma ·))) :: rest) := by
  rw [readItems]
  simp only [hl, hcolon, List.head?_cons, Option.getD_some, Bool.not_true, Bool.false_eq_true,
    if_false, List.drop_succ_cons, List.drop_zero, if_neg hne, hr]
  rfl

theorem readItems_moves (hc : c.source = W.source) (hc' : c'.source = W.source') :
    ∀ {ts ts' : List Token} {items : List (String × String)}, W.SameAll ts ts' →
      readItems c ts = .ok items → readItems c' ts' = .ok items
  | [], [], items, _, h => by rw [readItems] at h ⊢; exact h
  | t :: colon :: us, t' :: colon' :: us', items, hs, h => by
    obtain ⟨hl, _, _, he, hcolon, hne, rest, hr, rfl⟩ := readItems_eq_ok h
    obtain ⟨rfl, rfl⟩ := List.cons.inj he
    obtain ⟨ht, hco, hus⟩ := hs
    have hw := hus.takeWhile timeless_comma
    have hrest := readItems_moves hc hc' ((hus.dropWhile timeless_comma).drop 1) hr
    rw [readItems_of_ok (ht.isLiteral.trans hl) ((hco.has _ _).trans hcolon) ?_ hrest, ht.value,
      raw_eq hc hc' hw]
    intro he
    rw [he] at hw
    exact hne (List.length_eq_zero_iff.mp hw.length_eq.symm)
  | [_], [_], _, _, h => by
    obtain ⟨-, _, _, he, -⟩ := readItems_eq_ok h
    cases he
  | [], _ :: _, _, h, _ => h.elim
  | [_], [], _, h, _ => h.elim
  | [_], _ :: _ :: _, _, h, _ => h.2.elim
  | _ :: _ :: _, [], _, h, _ => h.elim
  | _ :: _ :: _, [_], _, h, _ => h.2.elim
termination_by ts => ts.length
decreasing_by
  have h := (us.dropWhile_sublist (!isComma ·)).length_le
  simp only [List.length_drop, List.length_cons]
  omega

/-! ## Closures and attributes -/

theorem tracks_readClosureBody (h : W.Embeds tail c c') :
    W.Tracks tail c c' Eq readClosureBody readClosureBody := by
  refine .get_bind ?_
  by_cases hne : c.ahead = []
  · refine .of_fails fun a d hr => ?_
    rw [if_neg (by rw [head_kind_of_nil hne]; decide)] at hr
    obtain ⟨us, e, hus, -⟩ := bind_eq_ok hr
    have hlt := (takeUntil_eq_ok hus).2.1
    simp [hne] at hlt
  · have hh := h.head hne
    refine .ite (by rw [hh.kind]) (fun _ => ?_) fun _ => ?_
    · refine (tracks_next h hne).bind fun _ _ _ _ _ _ hE => ?_
      exact .pure hE hh.inner.symm
    · refine (tracks_takeUntil (timeless_has .punct ";") h _).bind fun us d us' d' hus hs hE => ?_
      refine (tracks_next hE (takeUntil_eq_ok hus).1).bind fun _ _ _ _ _ _ hE => ?_
      exact .get_bind (.pure hE (raw_eq hE.source hE.source' hs).symm)

theorem tracks_readClosure (h : W.Embeds tail c c') :
    W.Tracks tail c c' (W.Moves Closure.shift) readClosure readClosure := by
  refine (tracks_expect h (by decide)).bind fun start _ start' _ _ hstart hE => ?_
  refine (tracks_expectKind hE (by decide)).bind fun binding _ binding' _ _ hbinding hE => ?_
  refine (tracks_expect hE (by decide)).bind fun _ _ _ _ _ _ hE => ?_
  refine (tracks_readClosureBody hE).bind fun body _ body' _ _ hbody hE => ?_
  subst hbody
  refine .ite Iff.rfl (fun _ => .failAt) fun _ => .pure hE ?_
  simp only [Moves, Closure.shift, hbinding.value, hstart.pos]

theorem map_ofPart_shift (n : Nat) (ps : List Part) :
    (ps.map AttributeValue.ofPart).map (AttributeValue.shift n)
      = (ps.map (Part.shift n)).map AttributeValue.ofPart := by
  rw [List.map_map, List.map_map]
  refine List.map_congr_left fun p _ => ?_
  cases p <;> rfl

theorem tracks_readAttributeValue (h : W.Embeds tail c c') :
    W.Tracks tail c c' (W.Moves AttributeValue.shift) readAttributeValue readAttributeValue := by
  refine .get_bind ?_
  by_cases hne : c.ahead = []
  · have hk := head_kind_of_nil hne
    refine .of_fails fun a d hr => ?_
    simp only [Token.isLiteral, Token.has, hk] at hr
    exact failAt_ne_ok hr
  have ht := h.head hne
  have hnext := tracks_next h hne
  refine .ite (by rw [ht.isLiteral]) (fun _ => ?_) fun _ => ?_
  · refine hnext.bind fun _ _ _ _ _ _ hE => .pure hE ?_
    rw [ht.value]; rfl
  refine .ite (by rw [ht.kind]) (fun _ => ?_) fun _ => ?_
  · refine hnext.bind fun _ _ _ _ _ _ hE => ?_
    refine (Tracks.lift hE fun e he => expressionOf_moves ht he).bind fun e _ e' _ _ he hE => ?_
    exact .pure hE (congrArg AttributeValue.expression he)
  refine .ite (by rw [ht.kind]) (fun _ => ?_) fun _ => ?_
  · refine hnext.bind fun _ _ _ _ _ _ hE => ?_
    have hi := h.inside ht
    refine (Tracks.lift hE fun items hr =>
        ⟨items, readItems_moves hi.source hi.source' ht.children hr, rfl⟩).bind
      fun items _ items' _ _ (he : items = items') hE => .pure hE ?_
    subst he
    simp only [Moves, AttributeValue.shift, ht.pos]
  refine .ite (by rw [ht.kind]) (fun _ => ?_) fun _ => ?_
  · refine hnext.bind fun _ _ _ _ _ _ hE => ?_
    refine (Tracks.lift hE fun ps hps => readParts_moves ht.children hps).bind
      fun ps _ ps' _ _ hps hE => .pure hE ?_
    simp only [Moves, AttributeValue.shift, AttributeValue.shiftAll_eq_map,
      map_ofPart_shift] at hps ⊢
    rw [hps]
  refine .ite (by rw [ht.has]) (fun _ => ?_) fun _ => .failAt
  exact (tracks_readClosure h).bind fun v _ v' _ _ hv hE =>
    .pure hE (congrArg AttributeValue.closure hv)

theorem ne_nil_of_sees {kind : TokenKind} {value : String} (hk : kind ≠ .endOfInput)
    (h : c.sees kind value = true) : c.ahead ≠ [] := by
  intro hn
  rw [sees_of_nil hn hk] at h
  cases h

theorem tracks_readAttribute (hclear : W.EndsAttribute tail) (h : W.Embeds tail c c') :
    W.Tracks tail c c' (W.Moves Attribute.shift) readAttribute readAttribute := by
  refine (tracks_readName hclear.1 h).bind fun name d name' d' _ hname hE => ?_
  subst hname
  refine .get_bind (.ite ?_ (fun hs => ?_) fun _ => .pure hE rfl)
  · rw [hE.sees (by decide) hclear.2]
  · refine (tracks_next hE (ne_nil_of_sees (by decide) hs)).bind fun _ _ _ _ _ _ hE => ?_
    refine (tracks_readAttributeValue hE).bind fun v _ v' _ _ hv hE => .pure hE ?_
    simp only [Moves, Attribute.shift, Option.map_some] at hv ⊢
    rw [hv]

end Window

end MarkupTemplate
