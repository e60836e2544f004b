import MarkupTemplate.Cursor.Forward
import MarkupTemplate.Proofs.Token.Move

/-!
# One piece of text in two texts

A window is a piece of text that stands in two texts, at two offsets. Two cursors over the tokens
of the piece, one in each text, see the same tokens up to their positions; behind the piece, the
second text may go on.

* `Window.Same`: a token of the piece in the one text and in the other.
* `Window.Embeds`: the two cursors have the same part of the piece before them.
* `Window.raw_eq`, `Window.joined_eq`: the source text of tokens does not depend on the text around
  the piece.
-/
namespace MarkupTemplate

/-- A piece of text between what stands around it in two texts. -/
structure Window where
  before : List Char
  text : List Char
  after : List Char
  before' : List Char
  after' : List Char

namespace Window

variable (W : Window)

/-- The first text. -/
def source : List Char := W.before ++ W.text ++ W.after

/-- The second text. -/
def source' : List Char := W.before' ++ W.text ++ W.after'

/-- Something of the first text and its counterpart in the second, which differ by a shift. -/
def Moves {α : Type} (shift : Nat → α → α) (a a' : α) : Prop :=
  shift W.before.length a' = shift W.before'.length a

/-- A token of the piece in the first text and its counterpart in the second. -/
def Same (t t' : Token) : Prop :=
  W.Moves Token.shift t t' ∧ t.Placed W.before.length (W.before.length + W.text.length)

/-- Tokens of the piece and their counterparts. -/
def SameAll : List Token → List Token → Prop
  | [], [] => True
  | t :: ts, t' :: ts' => W.Same t t' ∧ SameAll ts ts'
  | _, _ => False

/-- The second cursor has, before `tail`, the counterparts of the tokens that the first has. -/
structure Embeds (tail : List Token) (c c' : Cursor) : Prop where
  source : c.source = W.source
  source' : c'.source = W.source'
  ahead : ∃ ts, c'.ahead = ts ++ tail ∧ W.SameAll c.ahead ts

variable {W}

/-! ## Tokens -/

section Tokens

variable {t t' : Token}

theorem Same.kind (h : W.Same t t') : t'.kind = t.kind := by
  simpa using congrArg Token.kind h.1

theorem Same.value (h : W.Same t t') : t'.value = t.value := by
  simpa using congrArg Token.value h.1

theorem Same.inner (h : W.Same t t') : t'.inner = t.inner := by
  simpa using congrArg Token.inner h.1

theorem Same.pos (h : W.Same t t') : t'.pos + W.before.length = t.pos + W.before'.length := by
  simpa using congrArg Token.pos h.1

theorem Same.stop (h : W.Same t t') : t'.stop + W.before.length = t.stop + W.before'.length := by
  simpa using congrArg Token.stop h.1

theorem Same.has (h : W.Same t t') (kind : TokenKind) (value : String) :
    t'.has kind value = t.has kind value := by
  rw [Token.has, Token.has, h.kind, h.value]

theorem Same.isLiteral (h : W.Same t t') : t'.isLiteral = t.isLiteral := by
  rw [Token.isLiteral, Token.isLiteral, h.kind]

theorem Same.ne_endOfInput (h : W.Same t t') : t.kind ≠ .endOfInput := by
  obtain ⟨-, hp⟩ := h
  cases hp with
  | mk hk _ _ _ => exact hk

theorem Same.bounds (h : W.Same t t') :
    (W.before.length ≤ t.pos ∧ t.pos ≤ W.before.length + W.text.length)
      ∧ W.before.length ≤ t.stop ∧ t.stop ≤ W.before.length + W.text.length := by
  obtain ⟨-, hp⟩ := h
  cases hp with
  | mk _ hp hs _ => exact ⟨hp, hs⟩

theorem sameAll_of_map : ∀ {ts ts' : List Token},
    W.Moves (fun n => List.map (Token.shift n)) ts ts' →
      (∀ t ∈ ts, t.Placed W.before.length (W.before.length + W.text.length)) → W.SameAll ts ts'
  | [], [], _, _ => trivial
  | [], _ :: _, h, _ => by simp [Moves] at h
  | _ :: _, [], h, _ => by simp [Moves] at h
  | t :: ts, t' :: ts', h, hp => by
    simp only [Moves, List.map_cons, List.cons.injEq] at h
    exact ⟨⟨h.1, hp t List.mem_cons_self⟩,
      sameAll_of_map h.2 fun u hu => hp u (List.mem_cons_of_mem t hu)⟩

theorem Same.children (h : W.Same t t') : W.SameAll t.children t'.children := by
  refine sameAll_of_map ?_ ?_
  · simpa [Moves] using congrArg Token.children h.1
  · obtain ⟨-, hp⟩ := h
    cases hp with
    | mk _ _ _ hc => exact hc

theorem SameAll.length_eq : ∀ {ts ts' : List Token}, W.SameAll ts ts' → ts'.length = ts.length
  | [], [], _ => rfl
  | _ :: _, _ :: _, h => by simp [SameAll.length_eq h.2]
  | [], _ :: _, h => h.elim
  | _ :: _, [], h => h.elim

theorem SameAll.take : ∀ {ts ts' : List Token} (n : Nat), W.SameAll ts ts' →
    W.SameAll (ts.take n) (ts'.take n)
  | [], [], _, _ => by simp [SameAll]
  | _ :: _, _ :: _, 0, _ => trivial
  | _ :: _, _ :: _, n + 1, h => ⟨h.1, SameAll.take n h.2⟩
  | [], _ :: _, _, h => h.elim
  | _ :: _, [], _, h => h.elim

theorem SameAll.drop : ∀ {ts ts' : List Token} (n : Nat), W.SameAll ts ts' →
    W.SameAll (ts.drop n) (ts'.drop n)
  | [], [], _, _ => by simp [SameAll]
  | _ :: _, _ :: _, 0, h => h
  | _ :: _, _ :: _, n + 1, h => SameAll.drop n h.2
  | [], _ :: _, _, h => h.elim
  | _ :: _, [], _, h => h.elim

/-- A test of tokens that does not look at their positions. -/
def Timeless (f : Token → Bool) : Prop := ∀ t n, f (t.shift n) = f t

theorem Same.test (h : W.Same t t') {f : Token → Bool} (hf : Timeless f) : f t' = f t := by
  rw [← hf t' W.before.length, h.1, hf t]

theorem SameAll.reach {f : Token → Bool} (hf : Timeless f) : ∀ {ts ts' tail : List Token},
    W.SameAll ts ts' → (ts.takeWhile f).length < ts.length →
      ((ts' ++ tail).takeWhile f).length = (ts.takeWhile f).length
  | [], [], _, _, h => absurd h (Nat.lt_irrefl 0)
  | t :: ts, t' :: ts', tail, hs, h => by
    have ht := hs.1.test hf
    cases hft : f t with
    | false => simp [ht, hft]
    | true =>
      simp only [List.takeWhile_cons_of_pos hft, List.length_cons] at h
      rw [List.cons_append, List.takeWhile_cons_of_pos (ht.trans hft),
        List.takeWhile_cons_of_pos hft, List.length_cons, List.length_cons,
        SameAll.reach hf hs.2 (Nat.lt_of_succ_lt_succ h)]
  | [], _ :: _, _, h, _ => h.elim
  | _ :: _, [], _, h, _ => h.elim

end Tokens

/-! ## Slices -/

theorem slice_window {x y z : List Char} {k l : Nat} (hk : k ≤ y.length) (hl : l ≤ y.length) :
    Text.slice (x ++ y ++ z) (x.length + k) (x.length + l) = Text.slice y k l := by
  unfold Text.slice
  rw [List.append_assoc, List.drop_length_add_append, List.drop_append_of_le_length hk,
    List.take_append_of_le_length (by rw [List.length_drop]; omega)]
  congr 1
  omega

/-- Slices at counterparts are equal. -/
theorem slice_eq {i j i' j' : Nat} (hi : i' + W.before.length = i + W.before'.length)
    (hj : j' + W.before.length = j + W.before'.length)
    (hib : W.before.length ≤ i ∧ i ≤ W.before.length + W.text.length)
    (hjb : W.before.length ≤ j ∧ j ≤ W.before.length + W.text.length) :
    Text.slice W.source' i' j' = Text.slice W.source i j := by
  obtain ⟨k, rfl⟩ := Nat.exists_eq_add_of_le hib.1
  obtain ⟨l, rfl⟩ := Nat.exists_eq_add_of_le hjb.1
  obtain rfl : i' = W.before'.length + k := by omega
  obtain rfl : j' = W.before'.length + l := by omega
  rw [source, source', slice_window (by omega) (by omega), slice_window (by omega) (by omega)]

theorem Same.slice {t u t' u' : Token} (ht : W.Same t t') (hu : W.Same u u') :
    Text.slice W.source' t'.pos u'.stop = Text.slice W.source t.pos u.stop :=
  slice_eq ht.pos hu.stop ht.bounds.1 hu.bounds.2

theorem SameAll.getLast : ∀ {ts ts' : List Token} {t t' : Token}, W.Same t t' →
    W.SameAll ts ts' → ∃ u u', (t :: ts).getLast? = some u ∧ (t' :: ts').getLast? = some u'
      ∧ W.Same u u'
  | [], [], t, t', ht, _ => ⟨t, t', rfl, rfl, ht⟩
  | _ :: _, _ :: _, _, _, _, h => by
    rw [List.getLast?_cons_cons, List.getLast?_cons_cons]
    exact SameAll.getLast h.1 h.2
  | [], _ :: _, _, _, _, h => h.elim
  | _ :: _, [], _, _, _, h => h.elim

theorem raw_eq {c c' : Cursor} (hc : c.source = W.source) (hc' : c'.source = W.source')
    {ts ts' : List Token} (h : W.SameAll ts ts') : c'.raw ts' = c.raw ts := by
  match ts, ts', h with
  | [], [], _ => rfl
  | t :: ts, t' :: ts', h =>
    obtain ⟨u, u', hu, hu', hs⟩ := SameAll.getLast h.1 h.2
    simp only [Cursor.raw, List.head?_cons, hu, hu', hc, hc', h.1.slice hs]

theorem joinedAfter_eq : ∀ {ts ts' : List Token} {last last' : Nat},
    last' + W.before.length = last + W.before'.length → W.SameAll ts ts' →
      Cursor.joinedAfter W.source' last' ts' = Cursor.joinedAfter W.source last ts
  | [], [], _, _, _, _ => rfl
  | t :: ts, t' :: ts', last, last', hl, h => by
    have hlt : last' < t'.pos ↔ last < t.pos := by
      have := h.1.pos
      omega
    simp only [Cursor.joinedAfter, hlt, h.1.slice h.1, joinedAfter_eq h.1.stop h.2]
  | [], _ :: _, _, _, _, h => h.elim
  | _ :: _, [], _, _, _, h => h.elim

theorem joined_eq {c c' : Cursor} (hc : c.source = W.source) (hc' : c'.source = W.source')
    {ts ts' : List Token} (h : W.SameAll ts ts') : c'.joined ts' = c.joined ts := by
  match ts, ts', h with
  | [], [], _ => rfl
  | t :: ts, t' :: ts', h =>
    simp only [Cursor.joined, hc, hc', h.1.slice h.1, joinedAfter_eq h.1.stop h.2]

/-! ## Cursors -/

section Cursors

variable {tail : List Token} {c c' : Cursor}

/-- Either both cursors have a token of the piece next, or they are behind the piece. -/
theorem Embeds.cases (h : W.Embeds tail c c') :
    (c.ahead = [] ∧ c'.ahead = tail) ∨ ∃ t ts t' ts', c.ahead = t :: ts
      ∧ c'.ahead = t' :: (ts' ++ tail) ∧ W.Same t t' ∧ W.SameAll ts ts' := by
  obtain ⟨us, hus, hs⟩ := h.ahead
  match hc : c.ahead, us, hs with
  | [], [], _ => exact .inl ⟨rfl, hus⟩
  | t :: ts, t' :: ts', hs => exact .inr ⟨t, ts, t', ts', rfl, hus, hs.1, hs.2⟩

/-- Both cursors move over as many tokens of the piece. -/
theorem Embeds.skip (h : W.Embeds tail c c') {n : Nat} (hn : n ≤ c.ahead.length) :
    W.Embeds tail (c.skip n) (c'.skip n) := by
  obtain ⟨us, hus, hs⟩ := h.ahead
  refine ⟨h.source, h.source', us.drop n, ?_, hs.drop n⟩
  rw [Cursor.skip, hus, List.drop_append_of_le_length (by rw [hs.length_eq]; exact hn)]

/-- Inside counterpart groups, both cursors have counterparts and nothing behind them. -/
theorem Embeds.inside (h : W.Embeds tail c c') {t t' : Token} (ht : W.Same t t') :
    W.Embeds [] (c.inside t) (c'.inside t') :=
  ⟨h.source, h.source', t'.children, (List.append_nil _).symm, ht.children⟩

end Cursors

end Window

end MarkupTemplate
