import MarkupTemplate.Proofs.Node.Context
import MarkupTemplate.Proofs.Node.Grammar

/-!
# What is read is derived

A reader that succeeds has taken tokens that the grammar derives as what it answers.

* `takes_of_readClosure`, `takes_of_readAttributes`: closures and attributes.
* `spelled_of_readBranchHead`: the heads of control flow.
* `derives_of_readNode`, `derives_of_readNodes`: nodes.
* `derives_of_ofText?`: the nodes of a document are derived from the tokens of its text.
-/
namespace MarkupTemplate

open Cursor Node

/-! ## Fragments and attributes -/

variable {c d : Cursor}

/-- What a reader of source text takes, when it succeeds. -/
theorem takes_of_source (role : Role) {start : Token} {cause : FaultCause} {what s : String}
    (h : (takeUntil role.stops what >>= fun ts =>
      if ts.isEmpty then failAt cause start else get >>= fun c => pure (c.raw ts)) c = .ok s d) :
    ∃ ts, c.Takes ts d ∧ Cut c.source role ts s
      ∧ ∃ t us, d.ahead = t :: us ∧ role.stops t = true := by
  obtain ⟨ts, e, hts, h⟩ := Window.bind_eq_ok h
  obtain ⟨htakes, hclear, hstop⟩ := takes_of_takeUntil hts
  split at h
  · exact absurd h Window.failAt_ne_ok
  · next hne =>
    injection h with h₁ h₂
    subst h₁ h₂
    refine ⟨ts, htakes, ⟨by simpa using hne, hclear, ?_⟩, hstop⟩
    rw [← htakes.2]
    rfl

theorem takes_of_readPattern (role : Role) {what s : String}
    (h : readPattern role.stops what c = .ok s d) :
    ∃ ts, c.Takes ts d ∧ Cut c.source role ts s
      ∧ ∃ t us, d.ahead = t :: us ∧ role.stops t = true :=
  takes_of_source role h

theorem takes_of_readHead {what s : String} (h : readHead what c = .ok s d) :
    ∃ ts, c.Takes ts d ∧ Cut c.source .head ts s :=
  have ⟨ts, htakes, hcut, _⟩ := takes_of_source .head h
  ⟨ts, htakes, hcut⟩

/-- A pattern and the token that ends it. -/
theorem takes_of_readPattern_next (role : Role) {what s : String} {t : Token} {e : Cursor}
    (h : readPattern role.stops what c = .ok s d) (hn : next d = .ok t e) :
    ∃ ts, c.Takes (ts ++ [t]) e ∧ Cut c.source role ts s ∧ role.stops t = true := by
  obtain ⟨ts, htakes, hcut, u, us, hu, hstop⟩ := takes_of_readPattern role h
  obtain ⟨hnext, hhead⟩ := takes_of_next hn (by simp [hu])
  rw [hu] at hhead
  obtain rfl := Option.some.inj hhead
  exact ⟨ts, htakes.trans hnext, hcut, hstop⟩

theorem spelled_of_expressionOf {source : List Char} {context : EscapeContext} {t : Token}
    {e : Expression} (hk : t.kind = .brace) (h : expressionOf context t = .ok e) :
    Spelled source [t] (.expression e) ∧ e.context = context := by
  have hc := context_of_expressionOf h
  exact ⟨.expression hk (hc ▸ h), hc⟩

theorem derivesParts_of_readParts {source : List Char} {context : EscapeContext}
    {cause : FaultCause} {ts : List Token} {parts : List Part}
    (h : readParts context cause ts = .ok parts) : DerivesParts source context ts parts := by
  induction ts generalizing parts with
  | nil =>
    obtain rfl := Except.ok.inj h
    exact .nil
  | cons t ts ih =>
    obtain ⟨part, hpart, h⟩ := Scan.bind_ok h
    obtain ⟨rest, hrest, h⟩ := Scan.bind_ok h
    obtain rfl := Except.ok.inj h
    obtain ⟨hl, rfl⟩ | ⟨hk, e, he, rfl⟩ := partOf_eq_ok_iff.mp hpart
    · exact .literal hl (ih hrest)
    · obtain ⟨hs, hc⟩ := spelled_of_expressionOf hk he
      exact .expression hs hc (ih hrest)

theorem derivesItems_of_readItems {ts : List Token} {items : List (String × String)}
    (h : readItems c ts = .ok items) : DerivesItems c.source ts items := by
  induction hn : ts.length using Nat.strongRecOn generalizing ts items with
  | ind n ih =>
  subst hn
  cases ts with
  | nil =>
    rw [readItems] at h
    obtain rfl := Except.ok.inj h
    exact .nil
  | cons t ts =>
    obtain ⟨hl, colon, us, rfl, hcolon, hne, rest, hrest, rfl⟩ := Window.readItems_eq_ok h
    have hcut : Cut c.source .item (us.takeWhile (!isComma ·))
        (c.raw (us.takeWhile (!isComma ·))) :=
      ⟨hne, fun u hu => by simpa [Role.stops, isComma] using
        List.all_eq_true.mp List.all_takeWhile u hu, rfl⟩
    have hsplit := us.takeWhile_append_dropWhile (p := (!isComma ·))
    cases hd : us.dropWhile (!isComma ·) with
    | nil =>
      rw [hd, List.append_nil] at hsplit
      rw [hd, List.drop_nil, readItems] at hrest
      obtain rfl := Except.ok.inj hrest
      conv => arg 2; rw [← hsplit]
      exact .last hl hcolon hcut
    | cons comma vs =>
      have hcomma : isComma comma = true := by
        have := List.head_dropWhile_not (!isComma ·) (l := us) (by simp [hd])
        simpa [hd] using this
      rw [hd] at hsplit
      rw [hd, List.drop_succ_cons, List.drop_zero] at hrest
      have hlen : vs.length < (t :: colon :: us).length := by
        rw [← hsplit]
        simp only [List.length_cons, List.length_append]
        omega
      conv => arg 2; rw [← hsplit]
      exact .cons hl hcolon hcut hcomma (ih _ hlen hrest rfl)

theorem takes_of_readClosure {v : Closure} (h : readClosure c = .ok v d) :
    ∃ ts, c.Takes ts d ∧ Spelled c.source ts (.closure v) := by
  obtain ⟨bar, e₁, hbar, h⟩ := Window.bind_eq_ok h
  obtain ⟨name, e₂, hname, h⟩ := Window.bind_eq_ok h
  obtain ⟨bar', e₃, hbar', h⟩ := Window.bind_eq_ok h
  obtain ⟨body, e₄, hbody, h⟩ := Window.bind_eq_ok h
  obtain ⟨t₁, hb⟩ := takes_of_expect (by decide) hbar
  obtain ⟨t₂, hn⟩ := takes_of_expectKind (by decide) hname
  obtain ⟨t₃, hb'⟩ := takes_of_expect (by decide) hbar'
  have hbars := t₁.cons (t₂.cons t₃)
  split at h
  · exact absurd h Window.failAt_ne_ok
  next hblank =>
  injection h with h₁ h₂
  subst h₁ h₂
  change (if e₃.head.kind = .brace then _ else _ : Reader String) e₃ = _ at hbody
  split at hbody
  · next hk =>
    obtain ⟨t, e, ht, hbody⟩ := Window.bind_eq_ok hbody
    have htakes := takes_of_next ht fun hn => by rw [Window.head_kind_of_nil hn] at hk; cases hk
    injection hbody with h₃ h₄
    injection ht with h₅ _
    subst h₃ h₄ h₅
    exact ⟨_, hbars.trans htakes.1, .braced hb hn hb' hk (by simpa using hblank)⟩
  · next hk =>
    obtain ⟨ts, e, hts, hbody⟩ := Window.bind_eq_ok hbody
    obtain ⟨semi, f, hsemi, hbody⟩ := Window.bind_eq_ok hbody
    obtain ⟨htakes, hclear, hstop⟩ := takes_of_takeUntil_next hts hsemi
    injection hbody with h₃ h₄
    subst h₃ h₄
    have hraw : f.raw ts = sourceOf c.source ts := by
      rw [← hbars.2, ← htakes.2]
      rfl
    have hne : ts ≠ [] := by
      rintro rfl
      exact hblank (by rw [hraw]; rfl)
    have hhead : ∀ t ∈ ts.head?, t.kind ≠ .brace := by
      obtain ⟨t, us, rfl⟩ := List.exists_cons_of_ne_nil hne
      have hahead : e₃.ahead = t :: (us ++ [semi] ++ f.ahead) := htakes.1
      rw [Window.head_of_ahead hahead] at hk
      simpa using hk
    have := hbars.trans htakes
    exact ⟨_, this, .statements hb hn hb' ⟨hne, hclear, hraw⟩ hhead hstop⟩

/-- What is made of one token alone, by a function of it that may fail. -/
theorem takes_of_next_lift {α β : Type} {x : Except Fault α} {f : α → β} {b : β}
    (h : (next >>= fun _ => lift x >>= fun a => pure (f a) : Reader β) c = .ok b d)
    (hk : c.head.kind ≠ .endOfInput) : ∃ a, x = .ok a ∧ f a = b ∧ c.Takes [c.head] d := by
  obtain ⟨t, e, ht, h⟩ := Window.bind_eq_ok h
  obtain ⟨a, k, hl, hr⟩ := Window.bind_eq_ok h
  obtain ⟨hx, rfl⟩ := Window.lift_eq_ok hl
  have htakes := (takes_of_next ht fun hn => hk (Window.head_kind_of_nil hn)).1
  injection hr with h₁ h₂
  injection ht with h₃ _
  subst h₁ h₂ h₃
  exact ⟨a, hx, rfl, htakes⟩

theorem takes_of_readAttributeValue {v : AttributeValue} (h : readAttributeValue c = .ok v d) :
    ∃ ts, c.Takes ts d ∧ DerivesValue c.source ts v := by
  change (if c.head.isLiteral = true then _ else _ : Reader AttributeValue) c = _ at h
  split at h
  · next hl =>
    obtain ⟨s, hs, rfl, htakes⟩ := takes_of_next_lift (x := .ok c.head.value)
      (f := AttributeValue.literal) h fun hk => by simp [Token.isLiteral, hk] at hl
    obtain rfl := Except.ok.inj hs
    exact ⟨_, htakes, .literal hl⟩
  split at h
  · next hk =>
    obtain ⟨x, hx, rfl, htakes⟩ := takes_of_next_lift h (by rw [hk]; decide)
    obtain ⟨hs, hc⟩ := spelled_of_expressionOf hk hx
    exact ⟨_, htakes, .expression hs hc⟩
  split at h
  · next hk =>
    obtain ⟨items, hitems, rfl, htakes⟩ := takes_of_next_lift h (by rw [hk]; decide)
    exact ⟨_, htakes, .conditional (.conditions hk
      (derivesItems_of_readItems (c := c.inside c.head) hitems))⟩
  split at h
  · next hk =>
    obtain ⟨parts, hparts, rfl, htakes⟩ := takes_of_next_lift h (by rw [hk]; decide)
    exact ⟨_, htakes, .concat hk (derivesParts_of_readParts hparts)⟩
  split at h
  · obtain ⟨v, e, hv, h⟩ := Window.bind_eq_ok h
    obtain ⟨ts, htakes, hs⟩ := takes_of_readClosure hv
    injection h with h₁ h₂
    subst h₁ h₂
    exact ⟨ts, htakes, .closure hs⟩
  · exact absurd h Window.failAt_ne_ok

theorem takes_of_readAttribute {a : Attribute} (h : readAttribute c = .ok a d) :
    ∃ ts, c.Takes ts d ∧ ∀ {us attributes}, DerivesAttributes c.source us attributes →
      DerivesAttributes c.source (ts ++ us) (a :: attributes) := by
  obtain ⟨name, e, hname, h⟩ := Window.bind_eq_ok h
  obtain ⟨ns, hns, hn⟩ := takes_of_readName hname
  change (if e.sees .punct "=" = true then _ else _ : Reader Attribute) e = _ at h
  split at h
  · next hs =>
    obtain ⟨eq, f, heq, h⟩ := Window.bind_eq_ok h
    obtain ⟨v, g, hv, h⟩ := Window.bind_eq_ok h
    injection h with h₁ h₂
    subst h₁ h₂
    obtain ⟨hteq, hhas⟩ := takes_of_sees (by decide) hs heq
    obtain ⟨vs, hvs, hv⟩ := takes_of_readAttributeValue hv
    rw [(hns.trans hteq).2] at hv
    refine ⟨_, (hns.trans hteq).trans hvs, fun hus => ?_⟩
    simpa using DerivesAttributes.valued hn hhas hv hus
  · injection h with h₁ h₂
    subst h₁ h₂
    exact ⟨ns, hns, fun hus => .bare hn hus⟩

theorem takes_of_readAttributes {name : String} {opening : Token}
    {x : List Attribute × Bool} (h : readAttributes name opening c = .ok x d) :
    ∃ ts t, c.Takes (ts ++ [t]) d ∧ DerivesAttributes c.source ts x.1
      ∧ t.kind = if x.2 then .selfClose else .gt := by
  fun_induction readAttributes name opening c generalizing x d with
  | case1 c hg =>
    obtain ⟨htakes, hk⟩ := takes_of_isAt (by decide) hg
    injection h with h₁ h₂
    subst h₁ h₂
    exact ⟨[], c.head, htakes, .nil, hk⟩
  | case2 c hg hs =>
    obtain ⟨htakes, hk⟩ := takes_of_isAt (by decide) hs
    injection h with h₁ h₂
    subst h₁ h₂
    exact ⟨[], c.head, htakes, .nil, hk⟩
  | case3 => cases h
  | case4 => cases h
  | case5 => cases h
  | case6 c hg hs he a e ha as selfClosing f hr ih =>
    injection h with h₁ h₂
    subst h₁ h₂
    obtain ⟨ts, t, htakes, hts, hk⟩ := ih hr
    obtain ⟨us, hus, hcons⟩ := takes_of_readAttribute ha
    rw [hus.2] at hts
    exact ⟨us ++ ts, t, by simpa using hus.trans htakes, hcons hts, hk⟩

/-! ## Nodes without nodes -/

theorem derives_of_readText {kind : TokenKind} (hk : kind = .string ∨ kind = .number)
    {node : Node} (h : readText kind c = .ok node d) :
    ∃ ts, c.Takes ts d ∧ Derives c.source ts (.node node) := by
  obtain ⟨t, e, ht, h⟩ := Window.bind_eq_ok h
  injection h with h₁ h₂
  subst h₁ h₂
  obtain ⟨htakes, hkind⟩ := takes_of_expectKind (by rcases hk with rfl | rfl <;> decide) ht
  exact ⟨[t], htakes, .text (by rcases hk with rfl | rfl <;> simp [Token.isLiteral, hkind])⟩

theorem derives_of_readExpression {node : Node} (h : readExpression c = .ok node d) :
    ∃ ts, c.Takes ts d ∧ Derives c.source ts (.node node) := by
  obtain ⟨t, e, ht, h⟩ := Window.bind_eq_ok h
  obtain ⟨x, f, hl, hr⟩ := Window.bind_eq_ok h
  obtain ⟨hx, rfl⟩ := Window.lift_eq_ok hl
  injection hr with h₁ h₂
  subst h₁ h₂
  obtain ⟨htakes, hk⟩ := takes_of_expectKind (by decide) ht
  obtain ⟨hs, hc⟩ := spelled_of_expressionOf hk hx
  exact ⟨[t], htakes, .expression hs hc⟩

theorem derives_of_readComment {node : Node} (h : readComment c = .ok node d) :
    ∃ ts, c.Takes ts d ∧ Derives c.source ts (.node node) := by
  obtain ⟨t, e, ht, h⟩ := Window.bind_eq_ok h
  obtain ⟨ts, f, hts, h⟩ := Window.bind_eq_ok h
  obtain ⟨parts, g, hl, hr⟩ := Window.bind_eq_ok h
  obtain ⟨hparts, rfl⟩ := Window.lift_eq_ok hl
  obtain ⟨htakes, hk⟩ := takes_of_expectKind (by decide) ht
  obtain ⟨htakes', -, -⟩ := takes_of_takeAllUntil hts
  change (if g.isAt .commentClose = true then _ else _ : Reader Node) g = _ at hr
  split at hr
  · next hat =>
    obtain ⟨hclose, hkind⟩ := takes_of_isAt (by decide) hat
    injection hr with h₁ h₂
    subst h₁ h₂
    exact ⟨_, htakes.cons (htakes'.trans hclose),
      .comment hk (derivesParts_of_readParts hparts) hkind⟩
  · exact absurd hr Window.failAt_ne_ok

theorem derives_of_readCdata {body : Token} {node : Node}
    (hbody : cdataBody? (c.peek 1) = some body) (h : readCdata body c = .ok node d) :
    ∃ ts, c.Takes ts d ∧ Derives c.source ts (.node node) := by
  obtain ⟨t, e, ht, h⟩ := Window.bind_eq_ok h
  obtain ⟨outer, f, houter, h⟩ := Window.bind_eq_ok h
  obtain ⟨gt, g, hgt, h⟩ := Window.bind_eq_ok h
  obtain ⟨parts, k, hl, hr⟩ := Window.bind_eq_ok h
  obtain ⟨hparts, rfl⟩ := Window.lift_eq_ok hl
  injection hr with h₁ h₂
  subst h₁ h₂
  obtain ⟨t₁, hk⟩ := takes_of_expectKind (by decide) ht
  obtain ⟨t₂, hk'⟩ := takes_of_expectKind (by decide) houter
  obtain ⟨t₃, hk''⟩ := takes_of_expectKind (by decide) hgt
  have hpeek : c.peek 1 = outer := by simp [peek, t₁.1, t₂.1]
  exact ⟨_, t₁.cons (t₂.cons t₃),
    .cdata hk hk' (hpeek ▸ hbody) hk'' (derivesParts_of_readParts hparts)⟩

theorem derives_of_readDoctype {node : Node} (h : readDoctype c = .ok node d) :
    ∃ ts, c.Takes ts d ∧ Derives c.source ts (.node node) := by
  obtain ⟨t, e, ht, h⟩ := Window.bind_eq_ok h
  obtain ⟨ts, f, hts, h⟩ := Window.bind_eq_ok h
  obtain ⟨gt, g, hgt, h⟩ := Window.bind_eq_ok h
  obtain ⟨t₁, hk⟩ := takes_of_expectKind (by decide) ht
  obtain ⟨t₂, -, hstop⟩ := takes_of_takeUntil_next hts hgt
  split at h
  · exact absurd h Window.failAt_ne_ok
  next hne =>
  have htakes := t₁.cons t₂
  injection h with h₁ h₂
  rw [joined_eq_joinedOf, htakes.2] at h₁
  subst h₁ h₂
  exact ⟨_, htakes, .doctype hk (by simpa using hne) (by simpa using hstop)⟩

theorem derives_of_readDeclaration {node : Node} (h : readDeclaration c = .ok node d) :
    ∃ ts, c.Takes ts d ∧ Derives c.source ts (.node node) := by
  obtain ⟨_, e, hget, h⟩ := Window.bind_eq_ok h
  cases hget
  cases hbody : cdataBody? (c.peek 1) with
  | some body =>
    rw [hbody] at h
    exact derives_of_readCdata hbody h
  | none =>
    rw [hbody] at h
    exact derives_of_readDoctype h

theorem derives_of_readInstruction {node : Node} (h : readInstruction c = .ok node d) :
    ∃ ts, c.Takes ts d ∧ Derives c.source ts (.node node) := by
  obtain ⟨t, e, ht, h⟩ := Window.bind_eq_ok h
  obtain ⟨ts, f, hts, h⟩ := Window.bind_eq_ok h
  obtain ⟨close, g, hclose, h⟩ := Window.bind_eq_ok h
  obtain ⟨t₁, hk⟩ := takes_of_expectKind (by decide) ht
  obtain ⟨t₂, -, hstop⟩ := takes_of_takeUntil_next hts hclose
  have htakes := t₁.cons t₂
  injection h with h₁ h₂
  rw [joined_eq_joinedOf, htakes.2] at h₁
  subst h₁ h₂
  exact ⟨_, htakes, .instruction hk (by simpa using hstop)⟩

theorem derives_of_readBinding {node : Node} (h : readBinding c = .ok node d) :
    ∃ ts, c.Takes ts d ∧ Derives c.source ts (.node node) := by
  obtain ⟨t, e, ht, h⟩ := Window.bind_eq_ok h
  obtain ⟨p, f, hp, h⟩ := Window.bind_eq_ok h
  obtain ⟨eq, g, heq, h⟩ := Window.bind_eq_ok h
  obtain ⟨vs, k, hvs, h⟩ := Window.bind_eq_ok h
  obtain ⟨semi, l, hsemi, h⟩ := Window.bind_eq_ok h
  obtain ⟨t₁, ht⟩ := takes_of_expect (by decide) ht
  obtain ⟨ps, t₂, hp, he⟩ := takes_of_readPattern_next .pattern hp heq
  obtain ⟨t₃, hv, hs⟩ := takes_of_takeUntil_next hvs hsemi
  split at h
  · exact absurd h Window.failAt_ne_ok
  next hne =>
  have htakes := t₁.cons (t₂.trans t₃)
  rw [t₁.2] at hp
  injection h with h₁ h₂
  subst h₁ h₂
  have hcut : Cut c.source .value vs (l.raw vs) :=
    ⟨by simpa using hne, hv, by rw [← htakes.2]; rfl⟩
  refine ⟨_, htakes, ?_⟩
  simpa using Derives.binding (.binding ht hp he hcut hs)

/-! ## Heads -/

theorem spelled_of_readBranchHead {head : BranchHead} (h : readBranchHead c = .ok head d) :
    ∃ ts, c.Takes ts d ∧ Spelled c.source ts (.branch head.condition head.pattern head.pos) := by
  change (if c.head.has .keyword "let" = true then _ else _ : Reader BranchHead) c = _ at h
  split at h
  · next hlet =>
    obtain ⟨t, e, ht, h⟩ := Window.bind_eq_ok h
    obtain ⟨p, f, hp, h⟩ := Window.bind_eq_ok h
    obtain ⟨eq, g, heq, h⟩ := Window.bind_eq_ok h
    obtain ⟨s, k, hs, h⟩ := Window.bind_eq_ok h
    injection h with h₁ h₂
    subst h₁ h₂
    have htc : c.head = t := by injection ht
    obtain ⟨t₁, hlet⟩ := takes_of_sees (by decide) hlet ht
    obtain ⟨ps, t₂, hp, he⟩ := takes_of_readPattern_next .pattern hp heq
    obtain ⟨ts, t₃, hs⟩ := takes_of_readHead hs
    have htakes := t₁.cons (t₂.trans t₃)
    rw [t₁.2] at hp
    rw [t₂.2, t₁.2] at hs
    refine ⟨_, htakes, ?_⟩
    rw [htc]
    simpa using Spelled.pattern hlet hp he hs
  · next hlet =>
    obtain ⟨s, e, hs, h⟩ := Window.bind_eq_ok h
    injection h with h₁ h₂
    subst h₁ h₂
    obtain ⟨ts, htakes, hcut⟩ := takes_of_readHead hs
    obtain ⟨t, us, rfl⟩ := List.exists_cons_of_ne_nil hcut.ne_nil
    have hhead : c.head = t := Window.head_of_ahead htakes.1
    rw [hhead] at hlet ⊢
    exact ⟨_, htakes, .condition (by simpa using hlet) hcut⟩

theorem spelled_of_readMatchHead {x : String × Nat} (h : readMatchHead c = .ok x d) :
    ∃ ts, c.Takes ts d ∧ Spelled c.source ts (.selection x.1 x.2) := by
  obtain ⟨t, e, ht, h⟩ := Window.bind_eq_ok h
  obtain ⟨s, f, hs, h⟩ := Window.bind_eq_ok h
  injection h with h₁ h₂
  subst h₁ h₂
  obtain ⟨t₁, ht⟩ := takes_of_expect (by decide) ht
  obtain ⟨ts, t₂, hs⟩ := takes_of_readHead hs
  exact ⟨_, t₁.cons t₂, .selection ht (t₁.2 ▸ hs)⟩

theorem spelled_of_readForHead {x : String × String × Nat} (h : readForHead c = .ok x d) :
    ∃ ts, c.Takes ts d ∧ Spelled c.source ts (.loop x.1 x.2.1 x.2.2) := by
  obtain ⟨t, e, ht, h⟩ := Window.bind_eq_ok h
  obtain ⟨p, f, hp, h⟩ := Window.bind_eq_ok h
  obtain ⟨u, g, hu, h⟩ := Window.bind_eq_ok h
  obtain ⟨s, k, hs, h⟩ := Window.bind_eq_ok h
  injection h with h₁ h₂
  subst h₁ h₂
  obtain ⟨t₁, ht⟩ := takes_of_expect (by decide) ht
  obtain ⟨ps, t₂, hp, hu⟩ := takes_of_readPattern_next .binder hp hu
  obtain ⟨ts, t₃, hs⟩ := takes_of_readHead hs
  rw [t₁.2] at hp
  rw [t₂.2, t₁.2] at hs
  refine ⟨_, t₁.cons (t₂.trans t₃), ?_⟩
  simpa using Spelled.loop ht hp hu hs

theorem spelled_of_readArmHead {p : String} (h : readArmHead c = .ok p d) :
    ∃ ts, c.Takes ts d ∧ Spelled c.source ts (.arm p) := by
  obtain ⟨p, e, hp, h⟩ := Window.bind_eq_ok h
  obtain ⟨t, f, ht, h⟩ := Window.bind_eq_ok h
  injection h with h₁ h₂
  subst h₁ h₂
  obtain ⟨ps, htakes, hp, ha⟩ := takes_of_readPattern_next .arm hp ht
  exact ⟨_, htakes, .arm hp (by simpa [Role.stops] using ha)⟩

theorem takes_of_skipComma (h : skipComma c = .ok () d) :
    ∃ ts, c.Takes ts d ∧ (ts = [] ∨ ∃ comma, ts = [comma] ∧ isComma comma = true) := by
  change (if c.sees .punct "," = true then _ else _ : Reader Unit) c = _ at h
  split at h
  · next hs =>
    obtain ⟨t, e, ht, h⟩ := Window.bind_eq_ok h
    injection h with _ h₂
    subst h₂
    obtain ⟨htakes, hcomma⟩ := takes_of_sees (by decide) hs ht
    exact ⟨[t], htakes, .inr ⟨t, rfl, hcomma⟩⟩
  · injection h with _ h₂
    subst h₂
    exact ⟨[], .refl _, .inl rfl⟩

/-! ## Nodes -/

/-- Only real tokens are ahead: none of them, and none in their groups, stands for the end. -/
def Cursor.Real (c : Cursor) : Prop := ∃ lo hi, ∀ t ∈ c.ahead, t.Placed lo hi

theorem Cursor.Real.of_takes {ts : List Token} (h : c.Real) (ht : c.Takes ts d) : d.Real := by
  obtain ⟨lo, hi, hc⟩ := h
  exact ⟨lo, hi, fun t hd => hc t (by rw [ht.1]; exact List.mem_append_right ts hd)⟩

theorem Cursor.Real.skip (h : c.Real) (n : Nat) : (c.skip n).Real := by
  obtain ⟨lo, hi, hc⟩ := h
  exact ⟨lo, hi, fun t ht => hc t (List.mem_of_mem_drop ht)⟩

theorem Cursor.Real.child {t : Token} (h : c.Real) (ht : t ∈ c.ahead) : (c.inside t).Real := by
  obtain ⟨lo, hi, hc⟩ := h
  cases hc t ht with
  | mk _ _ _ hchildren => exact ⟨lo, hi, hchildren⟩

theorem Cursor.Real.inside {t : Token} {ts : List Token} (h : c.Real) (ht : c.Takes ts d)
    (hm : t ∈ ts) : (d.inside t).Real :=
  inside_eq ht.2 t ▸ h.child (by rw [ht.1]; exact List.mem_append_left _ hm)

theorem Cursor.Real.ahead_of_isAt (h : c.Real) (hend : c.isAt .endOfInput = true) :
    c.ahead = [] := by
  obtain ⟨lo, hi, hc⟩ := h
  cases ha : c.ahead with
  | nil => rfl
  | cons t ts =>
    have hk : t.kind = .endOfInput := by simpa [isAt, Window.head_of_ahead ha] using hend
    cases hc t (by rw [ha]; exact List.mem_cons_self) with
    | mk hkind _ _ _ => exact absurd hk hkind

/-- What a reader answers is derived from the tokens that it takes. -/
def Sound {α : Type} (c : Cursor) (r : Reader α) (phrase : α → Phrase) : Prop :=
  ∀ a d, r c = .ok a d → ∃ ts, c.Takes ts d ∧ Derives c.source ts (phrase a)

mutual

theorem derives_of_readBlock (c : Cursor) (hc : c.Real) : Sound c readBlock .block := by
  intro nodes d h
  rw [readBlock_eq] at h
  obtain ⟨g, e, hg, h⟩ := Window.bind_eq_ok h
  have hlt := (Window.children_lt_of_expectKind (by decide) hg).1
  obtain ⟨htakes, hk⟩ := takes_of_expectKind (by decide) hg
  change (match readNodes none (e.inside g) with
    | .ok nodes _ => pure nodes
    | .error f _ => throw f : Reader (List Node)) e = _ at h
  cases hn : readNodes none (e.inside g) with
  | error f k => rw [hn] at h; cases h
  | ok ns k =>
    rw [hn] at h
    injection h with h₁ h₂
    subst h₁ h₂
    obtain ⟨ts, ht, hd, hend⟩ :=
      derives_of_readNodes none (e.inside g) (hc.inside htakes (by simp)) ns k hn
    have hchildren : g.children = ts := ht.all (hend rfl)
    have hsource : (e.inside g).source = c.source := htakes.2
    rw [hsource] at hd
    exact ⟨[g], htakes, .block hk (hchildren ▸ hd)⟩
termination_by (sizeOf c.ahead, 0)
decreasing_by exact Prod.Lex.left _ _ hlt

theorem derives_of_readNodes (opening : Option Token) (c : Cursor) (hc : c.Real) :
    ∀ nodes d, readNodes opening c = .ok nodes d → ∃ ts, c.Takes ts d
      ∧ Derives c.source ts (.nodes nodes) ∧ (opening = none → d.ahead = []) := by
  intro nodes d h
  -- a node and the nodes behind it
  have hcons : ∀ {node : Node} {us : List Token} {e : Cursor} {rest : List Node},
      sizeOf e.ahead < sizeOf c.ahead → c.Takes us e → Derives c.source us (.node node) →
      readNodes opening e = .ok rest d → ∃ ts, c.Takes ts d
        ∧ Derives c.source ts (.nodes (node :: rest)) ∧ (opening = none → d.ahead = []) := by
    intro node us e rest hlt hus hnode hrest
    obtain ⟨ts, hts, hd, hend⟩ := derives_of_readNodes opening e (hc.of_takes hus) rest d hrest
    exact ⟨us ++ ts, hus.trans hts, .nodes hnode (hus.2 ▸ hd), hend⟩
  have hstop : nodes = [] → c = d → (opening = none → d.ahead = []) → ∃ ts, c.Takes ts d
      ∧ Derives c.source ts (.nodes nodes) ∧ (opening = none → d.ahead = []) := by
    rintro rfl rfl hend
    exact ⟨[], .refl c, .noNodes, hend⟩
  cases opening with
  | some t =>
    rw [readNodes_some_eq] at h
    split at h
    · exact absurd h Window.failAt_ne_ok
    split at h
    · injection h with h₁ h₂
      exact hstop h₁.symm h₂ (by simp)
    · obtain ⟨node, e, hnode, h⟩ := Window.bind_eq_ok h
      obtain ⟨rest, f, hrest, h⟩ := Window.bind_eq_ok h
      injection h with h₁ h₂
      subst h₁ h₂
      obtain ⟨us, hus, hd⟩ := derives_of_readNode c hc node e hnode
      exact hcons (Window.lt_of_readNode hnode) hus hd hrest
  | none =>
    rw [readNodes_none_eq] at h
    split at h
    · next hend =>
      injection h with h₁ h₂
      exact hstop h₁.symm h₂ fun _ => h₂ ▸ hc.ahead_of_isAt hend
    split at h
    · obtain ⟨name, e, hname, h⟩ := Window.bind_eq_ok h
      obtain ⟨rest, f, hrest, h⟩ := Window.bind_eq_ok h
      injection h with h₁ h₂
      subst h₁ h₂
      obtain ⟨us, hus, hclose⟩ := takes_of_readCloseTag hname
      exact hcons (Window.lt_of_advances advances_readCloseTag hname) hus (.stray hclose) hrest
    · obtain ⟨node, e, hnode, h⟩ := Window.bind_eq_ok h
      obtain ⟨rest, f, hrest, h⟩ := Window.bind_eq_ok h
      injection h with h₁ h₂
      subst h₁ h₂
      obtain ⟨us, hus, hd⟩ := derives_of_readNode c hc node e hnode
      exact hcons (Window.lt_of_readNode hnode) hus hd hrest
termination_by (sizeOf c.ahead, 3)
decreasing_by
  · exact Prod.Lex.left _ _ hlt
  · exact Prod.Lex.right _ (by omega)
  · exact Prod.Lex.right _ (by omega)

theorem derives_of_readElement (c : Cursor) (hc : c.Real) : Sound c readElement .node := by
  intro node d h
  obtain ⟨tag, e, htag, h⟩ := Window.bind_eq_ok h
  have hlt := Window.lt_of_advances advances_readTagHead htag
  obtain ⟨lt, e₁, hl, htag⟩ := Window.bind_eq_ok htag
  obtain ⟨name, e₂, hname, htag⟩ := Window.bind_eq_ok htag
  obtain ⟨x, e₃, hx, htag⟩ := Window.bind_eq_ok htag
  injection htag with h₁ h₂
  subst h₁ h₂
  obtain ⟨t₁, hk⟩ := takes_of_expectKind (by decide) hl
  obtain ⟨ns, t₂, hn⟩ := takes_of_readName hname
  obtain ⟨as, t, t₃, ha, hend⟩ := takes_of_readAttributes hx
  rw [t₂.2, t₁.2] at ha
  have htakes := t₁.cons (t₂.trans t₃)
  dsimp only at h
  split at h
  · next hself =>
    injection h with h₁ h₂
    subst h₁ h₂
    exact ⟨_, htakes, .void hk hn ha (by rw [hend, hself]; rfl)⟩
  · next hself =>
    obtain ⟨children, f, hchildren, h⟩ := Window.bind_eq_ok h
    obtain ⟨close, g, hclose, h⟩ := Window.bind_eq_ok h
    injection h with h₁ h₂
    subst h₁ h₂
    obtain ⟨ts, t₄, hd, -⟩ :=
      derives_of_readNodes (some lt) e₃ (hc.of_takes htakes) children f hchildren
    obtain ⟨cs, t₅, hclose⟩ := takes_of_readCloseTag hclose
    rw [htakes.2] at hd
    refine ⟨_, htakes.trans (t₄.trans t₅), ?_⟩
    simpa using Derives.element hk hn ha (by rw [hend, if_neg hself]) hd hclose
termination_by (sizeOf c.ahead, 1)
decreasing_by exact Prod.Lex.left _ _ hlt

theorem derives_of_readBranches (c : Cursor) (hc : c.Real) :
    Sound c readBranches fun x => .branches x.1 x.2 := by
  intro x d h
  rw [readBranches_eq] at h
  obtain ⟨head, e, hhead, h⟩ := Window.bind_eq_ok h
  obtain ⟨body, f, hbody, h⟩ := Window.bind_eq_ok h
  have hle := Window.le_of_forward forward_readBranchHead hhead
  have hlt := Window.lt_of_readBlock hbody
  obtain ⟨ts, t₁, hs⟩ := spelled_of_readBranchHead hhead
  have he := hc.of_takes t₁
  obtain ⟨us, t₂, hb⟩ := derives_of_readBlock e he body f hbody
  have htakes := t₁.trans t₂
  rw [t₁.2] at hb
  change (if f.sees .keyword "else" = true then _ else _ : Reader _) f = _ at h
  split at h
  · obtain ⟨t, g, ht, h⟩ := Window.bind_eq_ok h
    have hlt' := Window.lt_of_advances (advances_expect _ (by decide)) ht
    obtain ⟨t₃, helse⟩ := takes_of_expect (by decide) ht
    change (if g.sees .keyword "if" = true then _ else _ : Reader _) g = _ at h
    split at h
    · obtain ⟨u, k, hu, h⟩ := Window.bind_eq_ok h
      obtain ⟨⟨branches, otherwise⟩, l, hr, h⟩ := Window.bind_eq_ok h
      injection h with h₁ h₂
      subst h₁ h₂
      have hlt'' := Window.lt_of_advances (advances_expect _ (by decide)) hu
      obtain ⟨t₄, hif⟩ := takes_of_expect (by decide) hu
      have hk := t₃.cons t₄
      obtain ⟨vs, t₅, hr⟩ := derives_of_readBranches k (hc.of_takes (htakes.trans hk)) _ _ hr
      rw [hk.2, htakes.2] at hr
      refine ⟨_, (htakes.trans hk).trans t₅, ?_⟩
      simpa using Derives.elseIf hs hb helse hif hr
    · obtain ⟨nodes, k, hr, h⟩ := Window.bind_eq_ok h
      injection h with h₁ h₂
      subst h₁ h₂
      obtain ⟨vs, t₄, hr⟩ := derives_of_readBlock g (hc.of_takes (htakes.trans t₃)) _ _ hr
      rw [t₃.2, htakes.2] at hr
      refine ⟨_, (htakes.trans t₃).trans t₄, ?_⟩
      simpa using Derives.otherwise hs hb helse hr
  · injection h with h₁ h₂
    subst h₁ h₂
    exact ⟨_, htakes, .branch hs hb⟩
termination_by (sizeOf c.ahead, 1)
decreasing_by
  · exact Prod.Lex.right' _ hle (by omega)
  · exact Prod.Lex.left _ _ (by omega)
  · exact Prod.Lex.left _ _ (by omega)

theorem derives_of_readArmBody (c : Cursor) (hc : c.Real) : Sound c readArmBody .body := by
  intro nodes d h
  rw [readArmBody_eq] at h
  split at h
  · obtain ⟨ts, htakes, hd⟩ := derives_of_readBlock c hc nodes d h
    exact ⟨ts, htakes, .blockBody hd⟩
  · obtain ⟨node, e, hnode, h⟩ := Window.bind_eq_ok h
    injection h with h₁ h₂
    subst h₁ h₂
    obtain ⟨ts, htakes, hd⟩ := derives_of_readNode c hc node e hnode
    exact ⟨ts, htakes, .nodeBody hd⟩
termination_by (sizeOf c.ahead, 3)
decreasing_by
  · exact Prod.Lex.right _ (by omega)
  · exact Prod.Lex.right _ (by omega)

theorem derives_of_armsFrom (c : Cursor) (hc : c.Real) {arms : List Arm}
    (h : armsFrom c = .ok arms) : Derives c.source c.ahead (.arms arms) := by
  rcases armsFrom_eq_ok_iff.mp h with
    ⟨hend, rfl⟩ | ⟨-, p, d, body, e, f, rest, h₁, h₂, h₃, h₄, rfl⟩
  · rw [hc.ahead_of_isAt hend]
    exact .noArms
  · have hle := Window.le_of_forward forward_readArmHead h₁
    have hlt := Window.lt_of_readArmBody h₂
    have hle' := Window.le_of_forward forward_skipComma h₃
    obtain ⟨ts, t₁, hs⟩ := spelled_of_readArmHead h₁
    have hd := hc.of_takes t₁
    obtain ⟨us, t₂, hb⟩ := derives_of_readArmBody d hd body e h₂
    obtain ⟨cs, t₃, hcs⟩ := takes_of_skipComma h₃
    have htakes := t₁.trans (t₂.trans t₃)
    have ha := derives_of_armsFrom f (hc.of_takes htakes) h₄
    rw [t₁.2] at hb
    rw [htakes.2] at ha
    rw [htakes.1]
    simpa using Derives.arm hs hb hcs ha
termination_by (sizeOf c.ahead, 4)
decreasing_by
  · exact Prod.Lex.right' _ hle (by omega)
  · exact Prod.Lex.left _ _ (by omega)

theorem derives_of_readControl (c : Cursor) (hc : c.Real) :
    Sound c (readControl c.head) .node := by
  intro node d h
  unfold readControl at h
  split at h
  · obtain ⟨v, e, hv, h⟩ := Window.bind_eq_ok h
    injection h with h₁ h₂
    subst h₁ h₂
    obtain ⟨ts, htakes, hs⟩ := takes_of_readClosure hv
    exact ⟨ts, htakes, .closure hs⟩
  split at h
  · obtain ⟨t, e, ht, h⟩ := Window.bind_eq_ok h
    obtain ⟨⟨branches, otherwise⟩, f, hx, h⟩ := Window.bind_eq_ok h
    injection h with h₁ h₂
    subst h₁ h₂
    have hlt := Window.lt_of_advances (advances_expect _ (by decide)) ht
    obtain ⟨t₁, hif⟩ := takes_of_expect (by decide) ht
    obtain ⟨ts, t₂, hd⟩ := derives_of_readBranches e (hc.of_takes t₁) _ _ hx
    exact ⟨_, t₁.cons t₂, .choice hif (t₁.2 ▸ hd)⟩
  split at h
  · obtain ⟨⟨s, pos⟩, e, hx, h⟩ := Window.bind_eq_ok h
    obtain ⟨g, f, hg, h⟩ := Window.bind_eq_ok h
    have hlt := Window.lt_of_advances advances_readMatchHead hx
    have hlt' := (Window.children_lt_of_expectKind (by decide) hg).1
    obtain ⟨ts, t₁, hs⟩ := spelled_of_readMatchHead hx
    obtain ⟨t₂, hk⟩ := takes_of_expectKind (by decide) hg
    change (lift (armsFrom (f.inside g)) >>= fun arms =>
      pure (.selection s arms pos) : Reader Node) f = _ at h
    obtain ⟨arms, k, hl, hr⟩ := Window.bind_eq_ok h
    obtain ⟨harms, rfl⟩ := Window.lift_eq_ok hl
    injection hr with h₁ h₂
    subst h₁ h₂
    have hd := derives_of_armsFrom _ ((hc.of_takes t₁).inside t₂ (by simp)) harms
    have hsource : (k.inside g).source = c.source := (t₁.trans t₂).2
    rw [hsource] at hd
    exact ⟨_, t₁.trans t₂, .selection hs hk hd⟩
  split at h
  · obtain ⟨⟨p, s, pos⟩, e, hx, h⟩ := Window.bind_eq_ok h
    obtain ⟨body, f, hbody, h⟩ := Window.bind_eq_ok h
    injection h with h₁ h₂
    subst h₁ h₂
    have hlt := Window.lt_of_advances advances_readForHead hx
    obtain ⟨ts, t₁, hs⟩ := spelled_of_readForHead hx
    obtain ⟨us, t₂, hd⟩ := derives_of_readBlock e (hc.of_takes t₁) body f hbody
    exact ⟨_, t₁.trans t₂, .loop hs (t₁.2 ▸ hd)⟩
  split at h
  · exact derives_of_readBinding h
  · exact absurd h Window.failAt_ne_ok
termination_by (sizeOf c.ahead, 1)
decreasing_by
  · exact Prod.Lex.left _ _ hlt
  · exact Prod.Lex.left _ _ (Nat.lt_trans hlt' hlt)
  · exact Prod.Lex.left _ _ hlt

theorem derives_of_readNode (c : Cursor) (hc : c.Real) : Sound c readNode .node := by
  intro node d h
  rw [readNode_eq] at h
  cases hk : c.head.kind <;> rw [hk] at h
  case commentOpen => exact derives_of_readComment h
  case declaration => exact derives_of_readDeclaration h
  case instruction => exact derives_of_readInstruction h
  case lt => exact derives_of_readElement c hc node d h
  case string => exact derives_of_readText (.inl rfl) h
  case number => exact derives_of_readText (.inr rfl) h
  case brace => exact derives_of_readExpression h
  all_goals exact derives_of_readControl c hc node d h
termination_by (sizeOf c.ahead, 2)
decreasing_by all_goals exact Prod.Lex.right _ (by omega)

end

/-- The nodes of a document are derived from the tokens of its text. -/
theorem derives_of_ofText? {text : List Char} {doc : Document}
    (h : Document.ofText? text = .ok doc) : ∃ atoms, scan text 0 = .ok atoms
      ∧ Derives text (classify atoms) (.nodes doc.nodes) := by
  unfold Document.ofText? Document.ofTextFrom? at h
  split at h
  · cases h
  next atoms hscan =>
  split at h
  · next nodes d hr =>
    obtain rfl := Except.ok.inj h
    obtain ⟨q, hq, -⟩ := scan_eq_ok_iff_passes.mp hscan
    have hreal : (Cursor.ofTokens text (classify atoms)).Real :=
      ⟨_, _, classify_placed (hq.within (Nat.le_refl _) (Nat.le_refl _))⟩
    obtain ⟨ts, htakes, hd, hend⟩ := derives_of_readNodes none _ hreal nodes d hr
    have hts : classify atoms = ts := htakes.all (hend rfl)
    exact ⟨atoms, hscan, hts ▸ hd⟩
  · cases h

end MarkupTemplate
