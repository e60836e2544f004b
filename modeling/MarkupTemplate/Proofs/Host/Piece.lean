import MarkupTemplate.Host.Guard

/-!
# Cutting a text into pieces

Every step of the cutting takes a character, or goes from the start of a line into the line. So the
number of steps that is allowed for is never reached, and the pieces are, one after another, the
text that has been cut.

* `Piece.reach`: what is left to be done, which every step makes less.
* `Piece.cutAt`: the pieces from a place on, and how the cutting ends.
* `Piece.cutAt_eq`: the next step, and the pieces behind it.
* `Piece.exists_cutAt_eq`: the pieces are the front of the text, and all of it when it can be cut to
  its end.
* `Piece.stepInLine_of_opens`: the step at a character that is no blank and opens no comment.
-/
namespace MarkupTemplate.Host.Piece

/-! ## Every step goes on -/

/-- How much of a text the rest of a line of a string literal takes. -/
def LineEnd.length : LineEnd → Nat
  | closed n => n
  | continued n => n
  | «open» n => n

theorem le_length_lineEnd (quote : Char) (taken : Nat) (s : List Char) :
    taken ≤ (lineEnd quote taken s).length := by
  fun_induction lineEnd quote taken s with
  | case4 taken c rest _ _ ih => exact Nat.le_trans (Nat.le_add_right taken 2) ih
  | case7 taken c rest _ _ _ _ _ ih => exact Nat.le_trans (Nat.le_add_right taken 1) ih
  | _ => simp only [LineEnd.length]; omega

theorem lt_length_lineEnd (quote : Char) (taken : Nat) {s : List Char} (h : s ≠ []) :
    taken < (lineEnd quote taken s).length := by
  fun_cases lineEnd quote taken s with
  | case1 => exact absurd rfl h
  | case4 c rest => exact Nat.lt_of_lt_of_le (by omega) (le_length_lineEnd quote (taken + 2) rest)
  | case7 c rest => exact Nat.lt_of_lt_of_le (by omega) (le_length_lineEnd quote (taken + 1) rest)
  | _ => simp only [LineEnd.length]; omega

/-- A step takes a character, or stops because a literal is open. -/
def Step.Goes : Step → Prop
  | piece _ n _ _ => 0 < n
  | stop ending => ending = .unbalanced

theorem goes_stepAtLiteral (st : State) (mark : Nat) (quote : Char) (quoted : List Char) :
    (stepAtLiteral st mark quote quoted).Goes := by
  unfold stepAtLiteral
  split
  · split
    · simp only [Step.Goes]; omega
    · rfl
  · split
    · simp only [Step.Goes]; omega
    · simp only [Step.Goes]; omega
    · split
      · exact Nat.one_pos
      · next hm => exact Nat.pos_of_ne_zero hm

theorem goes_stepAtSign (st : State) (c : Char) (rest : List Char) :
    (stepAtSign st c rest).Goes := by
  unfold stepAtSign
  split
  · exact Nat.one_pos
  split
  · exact Nat.one_pos
  split
  · exact Nat.succ_pos _
  · exact Nat.one_pos

theorem goes_stepAtToken (st : State) (c : Char) (rest : List Char) :
    (stepAtToken st c rest).Goes := by
  unfold stepAtToken
  dsimp only
  split
  · exact goes_stepAtLiteral _ _ _ _
  split
  · next hn => exact hn
  · exact goes_stepAtSign _ _ _

theorem goes_stepInLine (st : State) {s : List Char} (hs : s ≠ []) : (stepInLine st s).Goes := by
  unfold stepInLine
  split
  · exact absurd rfl hs
  · exact Nat.one_pos
  · exact Nat.two_pos
  · exact Nat.two_pos
  · exact Nat.succ_pos 2
  · exact Nat.succ_pos 2
  split
  · exact Nat.one_pos
  split
  · exact Nat.succ_pos _
  · exact goes_stepAtToken _ _ _

theorem rowLength_pos (c : Char) (rest : List Char) : 0 < rowLength (c :: rest) := by
  unfold rowLength
  split
  · decide
  · exact Nat.succ_pos _

/-- At the start of a line a step goes into the line or takes a character. -/
theorem stepAtLine_goes {st st' : State} {s : List Char} {n : Nat} {kind : PieceKind} {mode : Mode}
    (h : stepAtLine st s = .piece kind n mode st') : s ≠ [] ∧ (mode = .inLine ∨ 0 < n) := by
  unfold stepAtLine at h
  dsimp only at h
  split at h
  · split at h
    · split at h
      · cases h
      · next hg =>
        cases h
        exact ⟨fun he => hg (by rw [he]; rfl), .inl rfl⟩
    · next c rest hr =>
      have hs : s ≠ [] := fun he => by rw [he, List.drop_nil] at hr; cases hr
      split at h
      · cases h
        exact ⟨hs, .inr (Nat.lt_of_lt_of_le (rowLength_pos c rest) (Nat.le_add_left _ _))⟩
      · split at h <;> cases h
        exact ⟨hs, .inl rfl⟩
  · split at h <;> cases h
    next hs => exact ⟨by simpa using hs, .inl rfl⟩

theorem stepInString_pos {st st' : State} {quote : Char} {s : List Char} {n : Nat}
    {kind : PieceKind} {mode : Mode} (h : stepInString quote st s = .piece kind n mode st') :
    s ≠ [] ∧ 0 < n := by
  have hs : s ≠ [] := by
    rintro rfl
    cases h
  have := lt_length_lineEnd quote 0 hs
  unfold stepInString at h
  refine ⟨hs, ?_⟩
  split at h
  · next he => cases h; rwa [he] at this
  · next he => cases h; rwa [he] at this
  · next he =>
    split at h <;> cases h
    rwa [he] at this

/-! ## The pieces from a place on -/

/-- What is left to be done: the rest of the text, and the way into its line. -/
def reach (mode : Mode) (s : List Char) : Nat :=
  2 * s.length + if mode = .lineStart then 1 else 0

theorem reach_drop_lt {mode mode' : Mode} {s : List Char} {n : Nat} (hs : s ≠ []) (hn : 0 < n) :
    reach mode' (s.drop n) < reach mode s := by
  have := List.length_pos_iff.mpr hs
  simp only [reach, List.length_drop]
  split <;> split <;> omega

/-- Every step leaves less to be done. -/
theorem reach_stepAt_lt {mode mode' : Mode} {st st' : State} {s : List Char} {n : Nat}
    {kind : PieceKind} (h : stepAt mode st s = .piece kind n mode' st') :
    reach mode' (s.drop n) < reach mode s := by
  cases mode with
  | lineStart =>
    obtain ⟨hs, rfl | hn⟩ := stepAtLine_goes h
    · simp only [reach, List.length_drop, reduceCtorEq, if_false, if_true]
      omega
    · exact reach_drop_lt hs hn
  | inLine =>
    unfold stepAt at h
    dsimp only at h
    split at h
    · next hs => exact absurd (List.isEmpty_iff.mp hs) (stepAtLine_goes h).1
    · next hs =>
      have hne : s ≠ [] := fun he => hs (by rw [he]; rfl)
      have hg := goes_stepInLine st hne
      rw [h] at hg
      exact reach_drop_lt hne hg
  | inString quote =>
    obtain ⟨hs, hn⟩ := stepInString_pos h
    exact reach_drop_lt hs hn

theorem cutFrom_congr {fuel fuel' : Nat} {mode : Mode} {st : State} {s : List Char}
    (h : reach mode s < fuel) (h' : reach mode s < fuel') :
    cutFrom fuel mode st s = cutFrom fuel' mode st s := by
  induction fuel generalizing fuel' mode st s with
  | zero => omega
  | succ fuel ih =>
    cases fuel' with
    | zero => omega
    | succ fuel' =>
      unfold cutFrom
      cases hstep : stepAt mode st s with
      | stop ending => rfl
      | piece kind n mode' st' =>
        have hlt := reach_stepAt_lt hstep
        have hrest : cutFrom fuel mode' st' (s.drop n) = cutFrom fuel' mode' st' (s.drop n) :=
          ih (by omega) (by omega)
        simp only [hrest]

/-- The pieces of a text from a place on, and how the cutting ends. -/
def cutAt (mode : Mode) (st : State) (s : List Char) : List Piece × Ending :=
  cutFrom (2 * s.length + 2) mode st s

/-- The pieces behind a step. -/
def behind (s : List Char) : Step → List Piece × Ending
  | .stop ending => ([], ending)
  | .piece kind n mode st =>
    let (pieces, ending) := cutAt mode st (s.drop n)
    (⟨kind, s.take n⟩ :: pieces, ending)

theorem reach_lt (mode : Mode) (s : List Char) : reach mode s < 2 * s.length + 2 := by
  unfold reach
  split <;> omega

/-- The next piece, and the pieces behind it. -/
theorem cutAt_eq (mode : Mode) (st : State) (s : List Char) :
    cutAt mode st s = behind s (stepAt mode st s) := by
  rw [cutAt, cutFrom]
  cases hstep : stepAt mode st s with
  | stop ending => rfl
  | piece kind n mode' st' =>
    have hlt := reach_stepAt_lt hstep
    have := reach_lt mode s
    simp only [behind, cutAt]
    rw [cutFrom_congr (by omega) (reach_lt mode' (s.drop n))]

theorem cut_eq (text : List Char) : cut text = cutAt .lineStart ⟨0, false, [0]⟩ text := rfl

theorem eq_nil_of_stepAtLine {st : State} {s : List Char}
    (h : stepAtLine st s = .stop .complete) : s = [] := by
  unfold stepAtLine at h
  dsimp only at h
  split at h
  · split at h
    · next hr =>
      split at h
      · next hg =>
        have hlen := List.drop_eq_nil_iff.mp hr
        rw [List.isEmpty_iff.mp hg] at hlen
        exact List.eq_nil_of_length_eq_zero (Nat.le_zero.mp hlen)
      · cases h
    · split at h
      · cases h
      · split at h <;> cases h
  · split at h <;> cases h

/-- A cutting that ends well ends at the end of the text. -/
theorem eq_nil_of_complete {mode : Mode} {st : State} {s : List Char}
    (h : stepAt mode st s = .stop .complete) : s = [] := by
  cases mode with
  | lineStart => exact eq_nil_of_stepAtLine h
  | inLine =>
    change (if s.isEmpty then stepAtLine st s else stepInLine st s) = _ at h
    split at h
    · exact eq_nil_of_stepAtLine h
    · next hs =>
      have hg := goes_stepInLine st (s := s) (fun he => hs (by rw [he]; rfl))
      rw [h] at hg
      cases hg
  | inString quote =>
    change stepInString quote st s = _ at h
    unfold stepInString at h
    split at h
    · cases h
    · cases h
    · split at h <;> cases h

/-- The pieces are the front of the text, and all of it when it can be cut to its end. -/
theorem exists_cutAt_eq (mode : Mode) (st : State) (s : List Char) :
    ∃ rest, s = (cutAt mode st s).1.flatMap Piece.text ++ rest
      ∧ ((cutAt mode st s).2 = .complete → rest = []) := by
  induction hr : reach mode s using Nat.strongRecOn generalizing mode st s with
  | ind r ih =>
    rw [cutAt_eq]
    cases hstep : stepAt mode st s with
    | stop ending =>
      refine ⟨s, rfl, fun he => ?_⟩
      obtain rfl : ending = .complete := he
      exact eq_nil_of_complete hstep
    | piece kind n mode' st' =>
      obtain ⟨rest, hs, hrest⟩ := ih _ (hr ▸ reach_stepAt_lt hstep) mode' st' (s.drop n) rfl
      refine ⟨rest, ?_, hrest⟩
      rw [behind, List.flatMap_cons, List.append_assoc, ← hs, List.take_append_drop]

/-! ## Tokens -/

/-- True of a character that may open a token inside a line. -/
def opensToken (c : Char) : Bool := !(isGap c || c == '\n' || c == '\r' || c == '\\' || c == '#')

theorem stepInLine_of_opens {c : Char} (h : opensToken c = true) (st : State) (rest : List Char) :
    stepInLine st (c :: rest)
      = if ['.', '.', '.'].isPrefixOf (c :: rest) then .piece .other 3 .inLine st
        else stepAtToken st c rest := by
  simp only [opensToken, Bool.not_eq_true', Bool.or_eq_false_iff, beq_eq_false_iff_ne] at h
  obtain ⟨⟨⟨⟨hgap, hfeed⟩, hreturn⟩, hjoin⟩, hcomment⟩ := h
  unfold stepInLine
  split
  · next he => cases he
  · next he => cases he; exact absurd rfl hfeed
  · next he => cases he; exact absurd rfl hreturn
  · next he => cases he; exact absurd rfl hjoin
  · next he => cases he; exact absurd rfl hjoin
  · next he => cases he; rfl
  · next hdots he =>
    cases he
    rw [if_neg (by simp [hgap]), if_neg (by simp [hcomment]), if_neg]
    intro hp
    obtain ⟨t, ht⟩ := List.isPrefixOf_iff_prefix.mp hp
    exact hdots t (by cases ht; rfl) (by cases ht; rfl)

theorem digits_of_not_digit {c : Char} (h : c.isDigit = false) (s : List Char) :
    digits (c :: s) = 0 := by
  simp [digits, h]

/-- A number starts with a digit or a point. -/
theorem numberLength_of_not_digit {c : Char} (h : c.isDigit = false) (hp : c ≠ '.')
    (s : List Char) : numberLength (c :: s) = 0 := by
  have hzero : c ≠ '0' := by rintro rfl; cases h
  have hdigits := digits_of_not_digit h s
  have hfloat : floatLength (c :: s) = 0 := by simp [floatLength, fractionLength, hdigits, hp]
  have hradix : radixLength (c :: s) = 0 := by
    unfold radixLength
    split
    · next he => cases he; exact absurd rfl hzero
    · rfl
  have hwhole : wholeLength (c :: s) = 0 := by
    unfold wholeLength
    split
    · next he => cases he; exact absurd rfl hzero
    · exact hdigits
  simp [numberLength, hdigits, hfloat, hradix, hwhole]

end MarkupTemplate.Host.Piece
