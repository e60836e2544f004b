import MarkupTemplate.Cursor

/-!
# Progress of readers

Readers only move to the right, and those that take a token leave fewer tokens ahead.

* `Cursor.Reaches`: one cursor lies at or after another in the same tokens.
* `Forward`: a reader ends, in success or failure, at or after its start.
* `Advances`: moreover, a success takes at least one token.
-/

namespace MarkupTemplate

namespace Cursor

/-- The second cursor lies at or after the first, over the same tokens. -/
def Reaches (c d : Cursor) : Prop := ∃ n, d = c.skip n

theorem skip_zero (c : Cursor) : c.skip 0 = c := by simp [skip]

theorem skip_skip (c : Cursor) (m n : Nat) : (c.skip m).skip n = c.skip (m + n) := by
  simp only [skip, List.length_drop, List.drop_drop, Cursor.mk.injEq, and_true, true_and]
  omega

theorem Reaches.refl (c : Cursor) : c.Reaches c := ⟨0, c.skip_zero.symm⟩

theorem Reaches.trans {c d e : Cursor} : c.Reaches d → d.Reaches e → c.Reaches e
  | ⟨m, hm⟩, ⟨n, hn⟩ => ⟨m + n, by rw [hn, hm, skip_skip]⟩

theorem Reaches.length_le {c d : Cursor} : c.Reaches d → d.ahead.length ≤ c.ahead.length
  | ⟨n, hn⟩ => by simp [hn, skip]

theorem Reaches.sizeOf_le {c d : Cursor} : c.Reaches d → sizeOf d.ahead ≤ sizeOf c.ahead
  | ⟨n, hn⟩ => by rw [hn]; exact sizeOf_drop_le n c.ahead

theorem sizeOf_drop_lt {α : Type} [SizeOf α] {n : Nat} {l : List α}
    (h : (l.drop n).length < l.length) : sizeOf (l.drop n) < sizeOf l := by
  cases l with
  | nil => simp at h
  | cons a l =>
    cases n with
    | zero => simp at h
    | succ n =>
      have := sizeOf_drop_le n l
      simp only [List.drop_succ_cons, List.cons.sizeOf_spec]; omega

theorem Reaches.sizeOf_lt {c d : Cursor} (hr : c.Reaches d)
    (h : d.ahead.length < c.ahead.length) : sizeOf d.ahead < sizeOf c.ahead := by
  obtain ⟨n, rfl⟩ := hr
  exact sizeOf_drop_lt h

end Cursor

/-- The cursor at which a reading stopped. -/
def cursorOf {α : Type} : EStateM.Result Fault Cursor α → Cursor
  | .ok _ c => c
  | .error _ c => c

/-- A reader that only moves to the right. -/
def Forward {α : Type} (r : Reader α) : Prop := ∀ c : Cursor, c.Reaches (cursorOf (r c))

/-- A reader that only moves to the right and takes a token when it succeeds. -/
def Advances {α : Type} (r : Reader α) : Prop :=
  Forward r ∧ ∀ (c : Cursor) a d, r c = .ok a d → d.ahead.length < c.ahead.length

namespace Forward

variable {α β : Type}

theorem pure (a : α) : Forward (Pure.pure a) := fun c => Cursor.Reaches.refl c

theorem throw (f : Fault) : Forward (MonadExcept.throw f : Reader α) :=
  fun c => Cursor.Reaches.refl c

theorem failAt (cause : FaultCause) (t : Token) : Forward (Cursor.failAt cause t : Reader α) :=
  throw _

theorem get : Forward (MonadState.get : Reader Cursor) := fun c => Cursor.Reaches.refl c

theorem next : Forward Cursor.next := fun _ => ⟨1, rfl⟩

theorem lift (r : Except Fault α) : Forward (Cursor.lift r) := fun _ => by
  cases r <;> exact Cursor.Reaches.refl _

theorem takeAllUntil (stop : Token → Bool) : Forward (Cursor.takeAllUntil stop) :=
  fun c => ⟨c.reach stop, rfl⟩

theorem bind {r : Reader α} {f : α → Reader β} (hr : Forward r) (hf : ∀ a, Forward (f a)) :
    Forward (r >>= f) := by
  intro c
  have h := hr c
  show c.Reaches (cursorOf (EStateM.bind r f c))
  unfold EStateM.bind
  cases e : r c with
  | ok a d => rw [e] at h; exact h.trans (hf a d)
  | error _ d => rw [e] at h; exact h

theorem ite {p : Prop} [Decidable p] {r s : Reader α} (hr : Forward r) (hs : Forward s) :
    Forward (if p then r else s) := by
  split
  · exact hr
  · exact hs

end Forward

namespace Advances

variable {α β : Type}

theorem bind_left {r : Reader α} {f : α → Reader β} (hr : Advances r) (hf : ∀ a, Forward (f a)) :
    Advances (r >>= f) := by
  refine ⟨hr.1.bind hf, fun c b e h => ?_⟩
  change EStateM.bind r f c = _ at h
  unfold EStateM.bind at h
  cases hrc : r c with
  | error _ _ => rw [hrc] at h; simp at h
  | ok a d =>
    rw [hrc] at h
    have h₁ := hr.2 c a d hrc
    have h₂ := (hf a d).length_le
    rw [show f a d = .ok b e from h] at h₂
    exact Nat.lt_of_le_of_lt h₂ h₁

theorem bind_right {r : Reader α} {f : α → Reader β} (hr : Forward r) (hf : ∀ a, Advances (f a)) :
    Advances (r >>= f) := by
  refine ⟨hr.bind fun a => (hf a).1, fun c b e h => ?_⟩
  change EStateM.bind r f c = _ at h
  unfold EStateM.bind at h
  cases hrc : r c with
  | error _ _ => rw [hrc] at h; simp at h
  | ok a d =>
    rw [hrc] at h
    have h₁ := (hr c).length_le
    rw [hrc] at h₁
    exact Nat.lt_of_lt_of_le ((hf a).2 d b e h) h₁

theorem ite {p : Prop} [Decidable p] {r s : Reader α} (hr : Advances r) (hs : Advances s) :
    Advances (if p then r else s) := by
  split
  · exact hr
  · exact hs

theorem failAt (cause : FaultCause) (t : Token) : Advances (Cursor.failAt cause t : Reader α) :=
  ⟨.failAt cause t, fun c _ _ h =>
    nomatch (show EStateM.Result.error (⟨cause, t.pos⟩ : Fault) c = .ok _ _ from h)⟩

end Advances

namespace Cursor

theorem ahead_ne_nil_of_head {c : Cursor} (h : c.head.kind ≠ .endOfInput) : c.ahead ≠ [] := by
  intro h'
  exact h (by simp [head, peek, h', ending, Token.flat, Token.kind])

theorem length_skip_lt {c : Cursor} {n : Nat} (h : c.ahead ≠ []) (hn : 0 < n) :
    (c.skip n).ahead.length < c.ahead.length := by
  have := List.length_pos_iff.mpr h
  simp only [skip, List.length_drop]; omega

theorem forward_expectKind (kind : TokenKind) : Forward (expectKind kind) :=
  Forward.next.bind fun _ => .ite (.pure _) (.failAt _ _)

theorem forward_expect (kind : TokenKind) (value : String) : Forward (expect kind value) :=
  Forward.next.bind fun _ => .ite (.pure _) (.failAt _ _)

theorem advances_expectKind {kind : TokenKind} (h : kind ≠ .endOfInput) :
    Advances (expectKind kind) := by
  refine ⟨forward_expectKind kind, fun c a d hd => ?_⟩
  unfold expectKind at hd
  simp only [bind, EStateM.bind, next] at hd
  split at hd
  · next hk =>
    simp only [pure, EStateM.pure, EStateM.Result.ok.injEq] at hd
    rw [← hd.2]
    exact length_skip_lt (ahead_ne_nil_of_head (by rw [hk]; exact h)) Nat.one_pos
  · exact nomatch (show EStateM.Result.error _ _ = .ok _ _ from hd)

theorem advances_expect {kind : TokenKind} (value : String) (h : kind ≠ .endOfInput) :
    Advances (expect kind value) := by
  refine ⟨forward_expect kind value, fun c a d hd => ?_⟩
  unfold expect at hd
  simp only [bind, EStateM.bind, next] at hd
  split at hd
  · next hk =>
    simp only [pure, EStateM.pure, EStateM.Result.ok.injEq] at hd
    rw [← hd.2]
    have hk' : c.head.kind = kind := by
      simp only [Token.has, Bool.and_eq_true, beq_iff_eq] at hk; exact hk.1
    exact length_skip_lt (ahead_ne_nil_of_head (by rw [hk']; exact h)) Nat.one_pos
  · exact nomatch (show EStateM.Result.error _ _ = .ok _ _ from hd)

theorem forward_takeUntil (stop : Token → Bool) (what : String) :
    Forward (takeUntil stop what) :=
  (Forward.takeAllUntil stop).bind fun _ =>
    Forward.get.bind fun _ => .ite (.failAt _ _) (.pure _)

theorem advances_readName : Advances readName := by
  refine ⟨fun c => ?_, fun c a d h => ?_⟩
  · unfold readName
    split
    · exact ⟨1, rfl⟩
    · split
      · exact ⟨_, rfl⟩
      · exact Reaches.refl c
  · unfold readName at h
    split at h
    · next hk =>
      injection h with _ hd
      rw [← hd]
      exact length_skip_lt (ahead_ne_nil_of_head (by rw [hk]; decide)) Nat.one_pos
    · split at h
      · next hk =>
        injection h with _ hd
        rw [← hd]
        refine length_skip_lt (ahead_ne_nil_of_head fun he => ?_) (Nat.succ_pos _)
        rw [isNameStart, he] at hk
        exact absurd hk (by decide)
      · injection h

theorem advances_readCloseTag : Advances readCloseTag :=
  (advances_expectKind (by decide)).bind_left fun _ =>
    advances_readName.1.bind fun _ => Forward.next.bind fun _ =>
      .ite (.failAt _ _) (.ite (.pure _) (.failAt _ _))

end Cursor

end MarkupTemplate
