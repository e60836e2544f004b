import MarkupTemplate.Proofs.Cursor.Tracks

/-!
# The tokens that readers take

A reader that succeeds has taken some tokens and left the others. For each primitive reader: which
tokens it takes, and what its answer says about them.

* `Cursor.Takes`: the tokens between two cursors of a document or a group.
* `Cursor.takes_of_takeUntil`: a run of tokens up to the one that stops it.
* `Name`, `Cursor.takes_of_readName`: the tokens of a name.
* `CloseTag`, `Cursor.takes_of_readCloseTag`: the tokens of a closing tag.
-/
namespace MarkupTemplate

/-- The source text of some tokens, without the blanks at its ends. -/
def sourceOf (source : List Char) (ts : List Token) : String := (Cursor.ofTokens source []).raw ts

/-- The source texts of some tokens, with one space for any gap between them. -/
def joinedOf (source : List Char) (ts : List Token) : String :=
  (Cursor.ofTokens source []).joined ts

namespace Cursor

variable {c d e : Cursor} {t : Token} {ts us : List Token}

/-- The tokens that stand between two cursors of the same document or group. -/
def Takes (c : Cursor) (ts : List Token) (d : Cursor) : Prop :=
  c.ahead = ts ++ d.ahead ∧ d.source = c.source

theorem Takes.refl (c : Cursor) : c.Takes [] c := ⟨rfl, rfl⟩

theorem Takes.trans (h : c.Takes ts d) (h' : d.Takes us e) : c.Takes (ts ++ us) e :=
  ⟨by rw [h.1, h'.1, List.append_assoc], h'.2.trans h.2⟩

theorem Takes.cons (h : c.Takes [t] d) (h' : d.Takes us e) : c.Takes (t :: us) e := h.trans h'

/-- A reader that leaves no tokens has taken all. -/
theorem Takes.all (h : c.Takes ts d) (hd : d.ahead = []) : c.ahead = ts := by
  rw [h.1, hd, List.append_nil]

theorem joined_eq_joinedOf (c : Cursor) (ts : List Token) : c.joined ts = joinedOf c.source ts := by
  cases ts <;> rfl

/-! ## Single tokens -/

theorem takes_of_next (h : next c = .ok t d) (hne : c.ahead ≠ []) :
    c.Takes [t] d ∧ c.ahead.head? = some t := by
  injection h with h₁ h₂
  subst h₁ h₂
  obtain ⟨u, us, hu⟩ := List.exists_cons_of_ne_nil hne
  rw [Window.head_of_ahead hu]
  exact ⟨⟨by simp [skip, hu], rfl⟩, by rw [hu]; rfl⟩

/-- At the end the next token stands for the end. -/
theorem kind_of_next (h : next c = .ok t d) (hn : c.ahead = []) : t.kind = .endOfInput := by
  injection h with h₁ _
  exact h₁ ▸ Window.head_kind_of_nil hn

theorem takes_of_next_kind (h : next c = .ok t d) (hk : t.kind ≠ .endOfInput) : c.Takes [t] d :=
  (takes_of_next h fun hn => hk (kind_of_next h hn)).1

/-- The next token of a kind, which the end is not. -/
theorem takes_of_isAt {kind : TokenKind} (hk : kind ≠ .endOfInput) (h : c.isAt kind = true) :
    c.Takes [c.head] (c.skip 1) ∧ c.head.kind = kind := by
  have hkind : c.head.kind = kind := by simpa [isAt] using h
  exact ⟨takes_of_next_kind rfl (hkind ▸ hk), hkind⟩

/-- The next token of a kind and a value. -/
theorem takes_of_sees {kind : TokenKind} {value : String} (hk : kind ≠ .endOfInput)
    (h : c.sees kind value = true) (hn : next c = .ok t d) :
    c.Takes [t] d ∧ t.has kind value = true := by
  injection hn with h₁ h₂
  subst h₁ h₂
  refine ⟨takes_of_next_kind rfl fun hend => ?_, h⟩
  simp only [sees, Token.has, hend, Bool.and_eq_true, beq_iff_eq] at h
  exact hk h.1.symm

theorem takes_of_expectKind {kind : TokenKind} (hk : kind ≠ .endOfInput)
    (h : expectKind kind c = .ok t d) : c.Takes [t] d ∧ t.kind = kind := by
  obtain ⟨u, e, hu, h⟩ := Window.bind_eq_ok h
  split at h
  · next hkind =>
    injection h with h₁ h₂
    subst h₁ h₂
    exact ⟨takes_of_next_kind hu (hkind ▸ hk), hkind⟩
  · exact absurd h Window.failAt_ne_ok

theorem takes_of_expect {kind : TokenKind} {value : String} (hk : kind ≠ .endOfInput)
    (h : expect kind value c = .ok t d) : c.Takes [t] d ∧ t.has kind value = true := by
  obtain ⟨u, e, hu, h⟩ := Window.bind_eq_ok h
  split at h
  · next hhas =>
    injection h with h₁ h₂
    subst h₁ h₂
    refine ⟨takes_of_next_kind hu fun hend => ?_, hhas⟩
    simp only [Token.has, hend, Bool.and_eq_true, beq_iff_eq] at hhas
    exact hk hhas.1.symm
  · exact absurd h Window.failAt_ne_ok

/-- A token of the kind that is asked for is taken. -/
theorem expectKind_of_ahead {kind : TokenKind} (hc : c.ahead = t :: us) (ht : t.kind = kind) :
    expectKind kind c = .ok t (c.skip 1) ∧ (c.skip 1).ahead = us := by
  refine ⟨?_, by simp [skip, hc]⟩
  rw [expectKind, Window.bind_of_ok (show next c = .ok c.head (c.skip 1) from rfl),
    Window.head_of_ahead hc, if_pos ht]
  rfl

/-! ## Runs of tokens -/

variable {stop : Token → Bool} {what : String}

theorem takes_of_takeAllUntil (h : takeAllUntil stop c = .ok ts d) :
    c.Takes ts d ∧ (∀ t ∈ ts, stop t = false) ∧ ∀ t ∈ d.ahead.head?, stop t = true := by
  have hsplit := c.ahead.takeWhile_append_dropWhile (p := fun t => !stop t)
  injection h with h₁ h₂
  have hts : ts = c.ahead.takeWhile fun t => !stop t := by
    rw [← h₁, reach, ← List.prefix_iff_eq_take.mp (List.takeWhile_prefix _)]
  have hd : d.ahead = c.ahead.dropWhile fun t => !stop t := by
    have hdrop : ((c.ahead.takeWhile fun t => !stop t) ++ c.ahead.dropWhile fun t => !stop t).drop
        (c.reach stop) = c.ahead.dropWhile fun t => !stop t := List.drop_left
    rw [hsplit] at hdrop
    rw [← h₂]
    exact hdrop
  refine ⟨⟨by rw [hts, hd, hsplit], by rw [← h₂]; rfl⟩, fun t ht => ?_, fun t ht => ?_⟩
  · rw [hts] at ht
    simpa using List.all_eq_true.mp (List.all_takeWhile (l := c.ahead)) t ht
  · have hne : c.ahead.dropWhile (fun t => !stop t) ≠ [] := by
      rw [← hd]
      rintro hn
      rw [hn] at ht
      cases ht
    have := List.head_dropWhile_not (fun t => !stop t) hne
    rw [hd, List.head?_eq_some_head hne] at ht
    obtain rfl := Option.some.inj ht
    simpa using this

/-- A run of tokens ends before the token that stops it. -/
theorem takes_of_takeUntil (h : takeUntil stop what c = .ok ts d) :
    c.Takes ts d ∧ (∀ t ∈ ts, stop t = false) ∧ ∃ t us, d.ahead = t :: us ∧ stop t = true := by
  obtain ⟨us, e, hus, h⟩ := Window.bind_eq_ok h
  obtain ⟨e', e'', he, h⟩ := Window.bind_eq_ok h
  injection he with h₁ h₂
  subst h₁ h₂
  split at h
  · exact absurd h Window.failAt_ne_ok
  · next hat =>
    injection h with h₃ h₄
    subst h₃ h₄
    obtain ⟨htakes, hts, hstop⟩ := takes_of_takeAllUntil hus
    have hne : e.ahead ≠ [] := fun hn => hat (by simp [isAt, Window.head_kind_of_nil hn])
    obtain ⟨t, vs, hv⟩ := List.exists_cons_of_ne_nil hne
    exact ⟨htakes, hts, t, vs, hv, hstop t (by rw [hv]; rfl)⟩

/-- A run of tokens and the token that stops it. -/
theorem takes_of_takeUntil_next (h : takeUntil stop what c = .ok ts d) (hn : next d = .ok t e) :
    c.Takes (ts ++ [t]) e ∧ (∀ t ∈ ts, stop t = false) ∧ stop t = true := by
  obtain ⟨htakes, hts, u, us, hu, hstop⟩ := takes_of_takeUntil h
  obtain ⟨hnext, hhead⟩ := takes_of_next hn (by simp [hu])
  rw [hu] at hhead
  obtain rfl := Option.some.inj hhead
  exact ⟨htakes.trans hnext, hts, hstop⟩

/-- A run of tokens is taken up to the one that stops it. -/
theorem takeUntil_of_ahead (what : String) (hc : c.ahead = ts ++ t :: us)
    (hts : ∀ x ∈ ts, stop x = false) (ht : stop t = true) (hend : t.kind ≠ .endOfInput) :
    takeUntil stop what c = .ok ts (c.skip ts.length)
      ∧ (c.skip ts.length).ahead = t :: us := by
  have hreach : c.reach stop = ts.length := by
    rw [reach, hc, List.takeWhile_append_of_pos (fun x hx => by simp [hts x hx])]
    simp [ht]
  have hahead : (c.skip ts.length).ahead = t :: us := by simp [skip, hc]
  have hall : takeAllUntil stop c = .ok ts (c.skip ts.length) := by
    rw [takeAllUntil, hreach, hc, List.take_left]
  refine ⟨?_, hahead⟩
  rw [takeUntil, Window.bind_of_ok hall]
  change (if (c.skip ts.length).isAt .endOfInput = true then _ else _ : Reader (List Token)) _ = _
  rw [if_neg (by simp [isAt, Window.head_of_ahead hahead, hend])]
  rfl

end Cursor

/-! ## Names and closing tags -/

/-- The tokens that spell a name: one string literal, or touching segments. -/
inductive Name : List Token → String → Prop where
  | quoted {t : Token} (hk : t.kind = .string) : Name [t] t.value
  | plain {t : Token} {ts : List Token} (hs : Cursor.isNameStart t = true)
      (hn : Cursor.nameLength true t.stop ts = ts.length) :
      Name (t :: ts) (String.join ((t :: ts).map Token.value))

/-- The tokens of a closing tag. -/
inductive CloseTag : List Token → String → Prop where
  | mk {t u : Token} {ts : List Token} {name : String} (ht : t.kind = .closeTag)
      (hn : Name ts name) (hu : u.kind = .gt) : CloseTag (t :: (ts ++ [u])) name

namespace Cursor

variable {c d : Cursor} {name : String}

theorem nameLength_take (colon : Bool) (last : Nat) (ts : List Token) :
    nameLength colon last (ts.take (nameLength colon last ts)) = nameLength colon last ts := by
  fun_induction nameLength colon last ts with
  | case1 colon last sep seg ts h ih =>
    rw [List.take_succ_cons, List.take_succ_cons, nameLength, if_pos h, ih]
  | case2 => rfl
  | case3 => rfl

theorem takes_of_readName (h : readName c = .ok name d) : ∃ ts, c.Takes ts d ∧ Name ts name := by
  obtain ⟨t, ts, hc, ⟨hk, rfl, rfl⟩ | ⟨hs, rfl, rfl⟩⟩ := Window.readName_eq_ok_iff.mp h
  · exact ⟨[t], ⟨by rw [skip, hc]; rfl, rfl⟩, .quoted hk⟩
  · rw [List.take_succ_cons]
    refine ⟨_, ⟨?_, rfl⟩, .plain hs ((nameLength_take _ _ ts).trans ?_)⟩
    · rw [skip, hc]
      simp
    · rw [List.length_take, Nat.min_eq_left (Window.nameLength_le _ _ _)]

theorem takes_of_readCloseTag (h : readCloseTag c = .ok name d) :
    ∃ ts, c.Takes ts d ∧ CloseTag ts name := by
  obtain ⟨t, e, ht, h⟩ := Window.bind_eq_ok h
  obtain ⟨n, f, hn, h⟩ := Window.bind_eq_ok h
  obtain ⟨u, g, hu, h⟩ := Window.bind_eq_ok h
  obtain ⟨ht, hkind⟩ := takes_of_expectKind (by decide) ht
  obtain ⟨ts, hts, hname⟩ := takes_of_readName hn
  split at h
  · exact absurd h Window.failAt_ne_ok
  split at h
  · next hgt =>
    injection h with h₁ h₂
    subst h₁ h₂
    have hu := takes_of_next_kind hu (by rw [hgt]; decide)
    exact ⟨_, ht.cons (hts.trans hu), .mk hkind hname hgt⟩
  · exact absurd h Window.failAt_ne_ok

end Cursor

end MarkupTemplate
