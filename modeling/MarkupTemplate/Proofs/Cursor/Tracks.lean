import MarkupTemplate.Proofs.Cursor.Window

/-!
# Readers that follow a piece of text

A reader that succeeds on a piece of text succeeds in the same way on the same piece in another
text, and stops at the same place of it. What stands behind the piece does not matter as long as it
goes on with no name and is no sign that a reader waits for.

* `Window.Tracks`: the second reader finds the counterpart of what the first finds.
* `Window.Clear`: the tokens behind the piece are none that a reader looks for.
* `Window.Tracks.bind`: steps that follow each other.
* `Window.readName_eq_ok_iff`, `Window.tracks_readName`: names.
-/
namespace MarkupTemplate

namespace Window

open Cursor

variable (W : Window) (tail : List Token)

/-- What the first reader finds in the first text, the second finds, moved, in the second text. -/
def Tracks {α β : Type} (c c' : Cursor) (R : α → β → Prop) (r : Reader α) (r' : Reader β) : Prop :=
  ∀ a d, r c = .ok a d → ∃ a' d', r' c' = .ok a' d' ∧ R a a' ∧ W.Embeds tail d d'

/-- The token behind the piece goes on with no name of the piece. -/
def EndsName : Prop :=
  ∀ t ∈ tail.head?, isSeparator t = false
    ∧ (isSegment t = true → W.before'.length + W.text.length < t.pos)

/-- The token behind the piece goes on with no name and no attribute of the piece. -/
def EndsAttribute : Prop :=
  W.EndsName tail ∧ ∀ t ∈ tail.head?, t.has .punct "=" = false

/-- The token behind the piece goes on with no name, no attribute and no choice of the piece. -/
def Clear : Prop :=
  W.EndsAttribute tail ∧ ∀ t ∈ tail.head?, t.has .keyword "else" = false

variable {W tail} {α β γ δ : Type} {c c' : Cursor} {R : α → β → Prop} {S : γ → δ → Prop}

theorem clear_nil : W.Clear [] := by simp [Clear, EndsAttribute, EndsName]

theorem bind_eq_ok {r : Reader α} {f : α → Reader γ} {b : γ} {e : Cursor}
    (h : (r >>= f) c = .ok b e) : ∃ a d, r c = .ok a d ∧ f a d = .ok b e := by
  change EStateM.bind r f c = _ at h
  unfold EStateM.bind at h
  cases hr : r c with
  | ok a d => rw [hr] at h; exact ⟨a, d, rfl, h⟩
  | error f d => rw [hr] at h; cases h

theorem bind_of_ok {r : Reader α} {f : α → Reader γ} {a : α} {d : Cursor} (h : r c = .ok a d) :
    (r >>= f) c = f a d := by
  change EStateM.bind r f c = _
  rw [EStateM.bind, h]

theorem bind_of_error {r : Reader α} {f : α → Reader γ} {e : Fault} {d : Cursor}
    (h : r c = .error e d) : (r >>= f) c = .error e d := by
  change EStateM.bind r f c = _
  rw [EStateM.bind, h]

theorem Tracks.congr {r s : Reader α} {r' s' : Reader β} (h : r c = s c) (h' : r' c' = s' c')
    (hs : W.Tracks tail c c' R s s') : W.Tracks tail c c' R r r' := by
  unfold Tracks
  rw [h, h']
  exact hs

theorem Tracks.bind {r : Reader α} {r' : Reader β} {f : α → Reader γ} {f' : β → Reader δ}
    (hr : W.Tracks tail c c' R r r')
    (hf : ∀ a d a' d', r c = .ok a d → R a a' → W.Embeds tail d d' →
      W.Tracks tail d d' S (f a) (f' a')) : W.Tracks tail c c' S (r >>= f) (r' >>= f') := by
  intro b e h
  obtain ⟨a, d, ha, hb⟩ := bind_eq_ok h
  obtain ⟨a', d', ha', hR, hE⟩ := hr a d ha
  obtain ⟨b', e', hb', hS, hE'⟩ := hf a d a' d' ha hR hE b e hb
  exact ⟨b', e', (bind_of_ok ha').trans hb', hS, hE'⟩

theorem Tracks.pure (hE : W.Embeds tail c c') {a : α} {a' : β} (h : R a a') :
    W.Tracks tail c c' R (Pure.pure a) (Pure.pure a') := by
  intro b d hb
  obtain ⟨rfl, rfl⟩ : a = b ∧ c = d := by
    change EStateM.Result.ok a c = _ at hb
    injection hb with h₁ h₂
    exact ⟨h₁, h₂⟩
  exact ⟨a', c', rfl, h, hE⟩

theorem Tracks.of_fails {r : Reader α} {r' : Reader β} (h : ∀ a d, r c ≠ .ok a d) :
    W.Tracks tail c c' R r r' := fun a d hr => absurd hr (h a d)

theorem Tracks.failAt {cause : FaultCause} {t : Token} {r' : Reader β} :
    W.Tracks tail c c' R (Cursor.failAt cause t) r' := by
  refine .of_fails fun a d h => ?_
  change EStateM.Result.error (⟨cause, t.pos⟩ : Fault) c = _ at h
  cases h

theorem Tracks.get_bind {f f' : Cursor → Reader γ} {T : γ → γ → Prop}
    (h : W.Tracks tail c c' T (f c) (f' c')) :
    W.Tracks tail c c' T (get >>= f) (get >>= f') := h

theorem Tracks.ite {p p' : Prop} [Decidable p] [Decidable p'] {r s : Reader α} {r' s' : Reader β}
    (hp : p' ↔ p) (hr : p → W.Tracks tail c c' R r r') (hs : ¬ p → W.Tracks tail c c' R s s') :
    W.Tracks tail c c' R (if p then r else s) (if p' then r' else s') := by
  by_cases h : p
  · rw [if_pos h, if_pos (hp.mpr h)]
    exact hr h
  · rw [if_neg h, if_neg fun h' => h (hp.mp h')]
    exact hs h

theorem Tracks.lift (hE : W.Embeds tail c c') {x : Except Fault α} {x' : Except Fault β}
    (h : ∀ a, x = .ok a → ∃ a', x' = .ok a' ∧ R a a') :
    W.Tracks tail c c' R (Cursor.lift x) (Cursor.lift x') := by
  intro a d ha
  cases x with
  | error f => cases ha
  | ok b =>
    obtain ⟨a', rfl, hR⟩ := h b rfl
    obtain ⟨rfl, rfl⟩ : b = a ∧ c = d := by
      injection ha with h₁ h₂
      exact ⟨h₁, h₂⟩
    exact ⟨a', c', rfl, hR, hE⟩

/-! ## The next token -/

theorem head_of_ahead {t : Token} {ts : List Token} (h : c.ahead = t :: ts) : c.head = t := by
  simp [head, peek, h]

theorem head_kind_of_nil (h : c.ahead = []) : c.head.kind = .endOfInput := by
  simp [head, peek, h, ending, Token.flat, Token.kind]

theorem isAt_of_nil {kind : TokenKind} (h : c.ahead = []) (hk : kind ≠ .endOfInput) :
    c.isAt kind = false := by
  rw [isAt, head_kind_of_nil h, beq_eq_false_iff_ne]
  exact hk.symm

theorem sees_of_nil {kind : TokenKind} {value : String} (h : c.ahead = [])
    (hk : kind ≠ .endOfInput) : c.sees kind value = false := by
  rw [sees, Token.has, head_kind_of_nil h, beq_eq_false_iff_ne.mpr hk.symm, Bool.false_and]

theorem Embeds.head (h : W.Embeds tail c c') (hne : c.ahead ≠ []) : W.Same c.head c'.head := by
  rcases h.cases with ⟨hc, -⟩ | ⟨t, ts, t', ts', hc, hc', ht, -⟩
  · exact absurd hc hne
  · rw [head_of_ahead hc, head_of_ahead hc']
    exact ht

/-- A look-ahead for a token that does not stand behind the piece. -/
theorem Embeds.sees (h : W.Embeds tail c c') {kind : TokenKind} {value : String}
    (hk : kind ≠ .endOfInput) (htail : ∀ t ∈ tail.head?, t.has kind value = false) :
    c'.sees kind value = c.sees kind value := by
  rcases h.cases with ⟨hc, hc'⟩ | ⟨t, ts, t', ts', hc, hc', ht, -⟩
  · rw [sees_of_nil hc hk]
    match tail, htail, hc' with
    | [], _, hc' => exact sees_of_nil hc' hk
    | t :: _, htail, hc' =>
      rw [Cursor.sees, head_of_ahead hc']
      exact htail t rfl
  · rw [Cursor.sees, Cursor.sees, head_of_ahead hc, head_of_ahead hc', ht.has]

theorem Embeds.next (h : W.Embeds tail c c') (hne : c.ahead ≠ []) :
    W.Embeds tail (c.skip 1) (c'.skip 1) :=
  h.skip (List.length_pos_iff.mpr hne)

theorem tracks_next (h : W.Embeds tail c c') (hne : c.ahead ≠ []) :
    W.Tracks tail c c' W.Same next next := by
  intro t d ht
  injection ht with h₁ h₂
  subst h₁ h₂
  exact ⟨c'.head, c'.skip 1, rfl, h.head hne, h.next hne⟩

/-- A step that takes the next token, which the end cannot be. -/
theorem Tracks.next_bind (h : W.Embeds tail c c') {f : Token → Reader γ} {f' : Token → Reader δ}
    (hend : ∀ t, t.kind = .endOfInput → ∀ d b e, f t d ≠ .ok b e)
    (hf : ∀ t t' d d', W.Same t t' → W.Embeds tail d d' → W.Tracks tail d d' S (f t) (f' t')) :
    W.Tracks tail c c' S (next >>= f) (next >>= f') := by
  by_cases hne : c.ahead = []
  · refine .of_fails fun b e hb => ?_
    obtain ⟨t, d, ht, hb⟩ := bind_eq_ok hb
    injection ht with h₁ h₂
    exact hend t (h₁ ▸ head_kind_of_nil hne) d b e hb
  · exact (tracks_next h hne).bind fun t d t' d' _ ht hE => hf t t' d d' ht hE

theorem failAt_ne_ok {cause : FaultCause} {t : Token} {d e : Cursor} {b : γ} :
    (Cursor.failAt cause t : Reader γ) d ≠ .ok b e := by
  intro h
  change EStateM.Result.error (⟨cause, t.pos⟩ : Fault) d = _ at h
  cases h

theorem lift_eq_ok {α : Type} {x : Except Fault α} {a : α} {d : Cursor}
    (h : Cursor.lift x c = .ok a d) : x = .ok a ∧ d = c := by
  cases x with
  | error f => cases h
  | ok b =>
    injection h with h₁ h₂
    exact ⟨congrArg Except.ok h₁, h₂.symm⟩

theorem tracks_expectKind (h : W.Embeds tail c c') {kind : TokenKind} (hk : kind ≠ .endOfInput) :
    W.Tracks tail c c' W.Same (expectKind kind) (expectKind kind) := by
  refine .next_bind h (fun t ht d b e => ?_) fun t t' d d' ht hE => ?_
  · rw [if_neg (by rw [ht]; exact hk.symm)]
    exact failAt_ne_ok
  · exact .ite (by rw [ht.kind]) (fun _ => .pure hE ht) fun _ => .failAt

theorem tracks_expect (h : W.Embeds tail c c') {kind : TokenKind} {value : String}
    (hk : kind ≠ .endOfInput) :
    W.Tracks tail c c' W.Same (expect kind value) (expect kind value) := by
  refine .next_bind h (fun t ht d b e => ?_) fun t t' d d' ht hE => ?_
  · have hno : ¬ t.has kind value = true := by
      rw [Token.has, ht, beq_eq_false_iff_ne.mpr hk.symm]
      simp
    rw [if_neg hno]
    exact failAt_ne_ok
  · exact .ite (by rw [ht.has]) (fun _ => .pure hE ht) fun _ => .failAt

/-! ## Runs of tokens -/

theorem isAt_endOfInput_iff (h : W.Embeds tail c c') :
    c.isAt .endOfInput = true ↔ c.ahead = [] := by
  constructor
  · intro hi
    by_cases hne : c.ahead = []
    · exact hne
    · exact absurd (by simpa [isAt] using hi) (h.head hne).ne_endOfInput
  · intro hn
    simp [isAt, head_kind_of_nil hn]

theorem reach_append {stop : Token → Bool} (hs : Timeless stop) (h : W.Embeds tail c c')
    (hlt : c.reach stop < c.ahead.length) : c'.reach stop = c.reach stop := by
  obtain ⟨ts, hts, hsame⟩ := h.ahead
  rw [reach, hts]
  exact hsame.reach (f := fun t => !stop t) (fun t n => congrArg (!·) (hs t n)) hlt

/-- A run of tokens that is stopped inside the piece. -/
theorem tracks_takeAllUntil {stop : Token → Bool} (hs : Timeless stop) (h : W.Embeds tail c c')
    (hlt : c.reach stop < c.ahead.length) :
    W.Tracks tail c c' W.SameAll (takeAllUntil stop) (takeAllUntil stop) := by
  intro ts d hts
  injection hts with h₁ h₂
  subst h₁ h₂
  have hr := reach_append hs h hlt
  have hE := h.skip (Nat.le_of_lt hlt)
  obtain ⟨us, hus, hsame⟩ := h.ahead
  refine ⟨_, _, rfl, ?_, hr ▸ hE⟩
  rw [hr, hus, List.take_append_of_le_length (by rw [hsame.length_eq]; omega)]
  exact hsame.take _

theorem takeUntil_eq_ok {stop : Token → Bool} {what : String} {ts : List Token} {d : Cursor}
    (h : takeUntil stop what c = .ok ts d) :
    d.ahead ≠ [] ∧ c.reach stop < c.ahead.length ∧ ts = c.ahead.take (c.reach stop) := by
  obtain ⟨us, e, hus, h⟩ := bind_eq_ok h
  obtain ⟨e', e'', he, h⟩ := bind_eq_ok h
  injection he with h₁ h₂
  subst h₁ h₂
  injection hus with h₁ h₂
  split at h
  · exact absurd h failAt_ne_ok
  · next hat =>
    injection h with h₃ h₄
    have hne : e.ahead ≠ [] := fun hn => hat (by simp [isAt, head_kind_of_nil hn])
    refine ⟨h₄ ▸ hne, ?_, by rw [h₁, h₃]⟩
    rw [← h₂, skip, ne_eq, List.drop_eq_nil_iff] at hne
    omega

theorem tracks_takeUntil {stop : Token → Bool} (hs : Timeless stop) (h : W.Embeds tail c c')
    (what : String) :
    W.Tracks tail c c' W.SameAll (takeUntil stop what) (takeUntil stop what) := by
  intro ts d hts
  obtain ⟨hne, hlt, -⟩ := takeUntil_eq_ok hts
  refine (tracks_takeAllUntil hs h hlt).bind (fun us e us' e' he hus hE => ?_) ts d hts
  have hne : e.ahead ≠ [] := by
    injection he with h₁ h₂
    rw [← h₂, skip, ne_eq, List.drop_eq_nil_iff]
    omega
  refine .get_bind (.ite ?_ (fun _ => .failAt) fun _ => .pure hE hus)
  rw [isAt, isAt, (hE.head hne).kind]

/-! ## Names -/

theorem Same.isSeparator {t t' : Token} (h : W.Same t t') : isSeparator t' = isSeparator t := by
  rw [Cursor.isSeparator, Cursor.isSeparator, h.has, h.has, h.has]

theorem Same.isNameStart {t t' : Token} (h : W.Same t t') : isNameStart t' = isNameStart t := by
  rw [Cursor.isNameStart, Cursor.isNameStart, h.kind]

theorem Same.isSegment {t t' : Token} (h : W.Same t t') : isSegment t' = isSegment t := by
  rw [Cursor.isSegment, Cursor.isSegment, h.isNameStart, h.kind]

theorem nameLength_le (colon : Bool) (last : Nat) (ts : List Token) :
    nameLength colon last ts ≤ ts.length := by
  fun_induction nameLength colon last ts with
  | case1 ih => simp only [List.length_cons]; omega
  | case2 => exact Nat.zero_le _
  | case3 => exact Nat.zero_le _

/-- A name reaches as far, and no further than the piece. -/
theorem nameLength_eq (hclear : W.EndsName tail) {colon : Bool} : ∀ {ts ts' : List Token}
    {last last' : Nat}, last' + W.before.length = last + W.before'.length → W.SameAll ts ts' →
      nameLength colon last' (ts' ++ tail) = nameLength colon last ts
  | [], [], last, last', _, _ => by
    match tail, hclear with
    | [], _ => rfl
    | [_], _ => rfl
    | sep :: seg :: tail, hclear =>
      simp [nameLength, (hclear sep rfl).1]
  | [sep], [sep'], last, last', _, h => by
    match tail, hclear with
    | [], _ => rfl
    | seg :: tail, hclear =>
      have hseg : isSegment seg = true → seg.pos ≠ sep'.stop := by
        intro hs
        have h₁ := (hclear seg rfl).2 hs
        have h₂ := h.1.stop
        have h₃ := h.1.bounds
        omega
      have hno : ¬ (isSeparator sep' && sep'.pos == last' && (colon || sep'.value != ":")
          && isSegment seg && seg.pos == sep'.stop) = true := by
        simp only [Bool.and_eq_true, beq_iff_eq]
        exact fun hh => hseg hh.1.2 hh.2
      simp only [List.cons_append, List.nil_append, nameLength, if_neg hno]
  | sep :: seg :: ts, sep' :: seg' :: ts', last, last', hl, h => by
    have h₁ := h.1.pos
    have h₂ := h.1.stop
    have h₃ := h.2.1.pos
    have hlast : (sep'.pos == last') = (sep.pos == last) := by
      rw [Bool.eq_iff_iff, beq_iff_eq, beq_iff_eq]; omega
    have htouch : (seg'.pos == sep'.stop) = (seg.pos == sep.stop) := by
      rw [Bool.eq_iff_iff, beq_iff_eq, beq_iff_eq]; omega
    simp only [List.cons_append, nameLength, h.1.isSeparator, hlast, h.1.value, h.2.1.isSegment,
      htouch, nameLength_eq hclear h.2.1.stop h.2.2]
  | [], _ :: _, _, _, _, h => h.elim
  | [_], [], _, _, _, h => h.elim
  | [_], _ :: _ :: _, _, _, _, h => h.2.elim
  | _ :: _ :: _, [], _, _, _, h => h.elim
  | _ :: _ :: _, [_], _, _, _, h => h.2.elim

theorem SameAll.map_value : ∀ {ts ts' : List Token}, W.SameAll ts ts' →
    ts'.map Token.value = ts.map Token.value
  | [], [], _ => rfl
  | _ :: _, _ :: _, h => by rw [List.map_cons, List.map_cons, h.1.value, SameAll.map_value h.2]
  | [], _ :: _, h => h.elim
  | _ :: _, [], h => h.elim

/-- A name is a literal, or a word with all that goes on with its name. -/
theorem readName_eq_ok_iff {d : Cursor} {name : String} : readName c = .ok name d ↔
    ∃ t ts, c.ahead = t :: ts ∧
      ((t.kind = .string ∧ name = t.value ∧ d = c.skip 1)
        ∨ (isNameStart t = true ∧ d = c.skip (nameLength true t.stop ts + 1)
          ∧ name = String.join
              (((t :: ts).take (nameLength true t.stop ts + 1)).map Token.value))) := by
  constructor
  · intro h
    unfold readName at h
    cases hc : c.ahead with
    | nil => simp [head_kind_of_nil hc, isNameStart] at h
    | cons t ts =>
      rw [head_of_ahead hc, hc, List.drop_succ_cons, List.drop_zero] at h
      refine ⟨t, ts, rfl, ?_⟩
      split at h
      · next hk =>
        injection h with h₁ h₂
        exact .inl ⟨hk, h₁.symm, h₂.symm⟩
      split at h
      · next hs =>
        injection h with h₁ h₂
        exact .inr ⟨hs, h₂.symm, h₁.symm⟩
      · cases h
  · rintro ⟨t, ts, hc, h⟩
    unfold readName
    rw [head_of_ahead hc, hc, List.drop_succ_cons, List.drop_zero]
    obtain ⟨hk, rfl, rfl⟩ | ⟨hs, rfl, rfl⟩ := h
    · rw [if_pos hk]
    · have hk : t.kind ≠ .string := by
        intro hk
        simp [isNameStart, hk] at hs
      rw [if_neg hk, if_pos hs]

theorem tracks_readName (hclear : W.EndsName tail) (h : W.Embeds tail c c') :
    W.Tracks tail c c' Eq readName readName := by
  intro name d hname
  obtain ⟨t, ts, hc, hname⟩ := readName_eq_ok_iff.mp hname
  rcases h.cases with ⟨hnil, -⟩ | ⟨u, us, t', ts', hu, hc', ht, hts⟩
  · rw [hnil] at hc
    cases hc
  obtain ⟨rfl, rfl⟩ := List.cons.inj (hc.symm.trans hu)
  have hne : c.ahead ≠ [] := by simp [hc]
  have hlen : nameLength true t'.stop (ts' ++ tail) = nameLength true t.stop ts :=
    nameLength_eq hclear ht.stop hts
  have hle := nameLength_le true t.stop ts
  obtain ⟨hk, rfl, rfl⟩ | ⟨hs, rfl, rfl⟩ := hname
  · have hread := readName_eq_ok_iff.mpr ⟨t', _, hc', .inl ⟨ht.kind.trans hk, rfl, rfl⟩⟩
    exact ⟨_, _, hread, ht.value.symm, h.next hne⟩
  · have hread := readName_eq_ok_iff.mpr ⟨t', _, hc', .inr ⟨ht.isNameStart.trans hs, rfl, rfl⟩⟩
    rw [hlen] at hread
    refine ⟨_, _, hread, ?_, h.skip (by rw [hc, List.length_cons]; omega)⟩
    have happ : t' :: (ts' ++ tail) = (t' :: ts') ++ tail := rfl
    have hsame : W.SameAll (t :: ts) (t' :: ts') := ⟨ht, hts⟩
    rw [happ, List.take_append_of_le_length (by
      rw [hsame.length_eq, List.length_cons]; omega), (hsame.take _).map_value]

theorem tracks_readCloseTag (hclear : W.EndsName tail) (h : W.Embeds tail c c') :
    W.Tracks tail c c' Eq readCloseTag readCloseTag := by
  refine (tracks_expectKind h (by decide)).bind fun _ _ _ _ _ _ hE => ?_
  refine (tracks_readName hclear hE).bind fun name _ name' _ _ hn hE => ?_
  refine .next_bind hE (fun t ht d b e => ?_) fun t t' d d' ht hE => ?_
  · rw [if_neg (by rw [ht]; decide), if_neg (by rw [ht]; decide)]
    exact failAt_ne_ok
  · rw [ht.kind]
    exact .ite Iff.rfl (fun _ => .failAt) fun _ => .ite Iff.rfl (fun _ => .pure hE hn)
      fun _ => .failAt

end Window

end MarkupTemplate
