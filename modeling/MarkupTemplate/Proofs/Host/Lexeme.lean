import MarkupTemplate.Host.Lexeme
import MarkupTemplate.Proofs.Text.Lines

/-!
# Lexemes from a place on

Every step of the lexer takes a character, or goes from the start of a line into the line. So the
number of steps that is allowed for is never reached, and the lexemes of a source are those of its
first step and those from the place behind it on.

* `Lexeme.Follows`: a text behind some characters, at least one.
* `Lexeme.length_step?_lt`: a lexeme takes a character.
* `Lexeme.lexemesAt`: the lexemes from a place on.
* `Lexeme.lexemesAt_eq`: the next step, and the lexemes behind it.
* `Lexeme.lexemesAt_step?`: a lexeme inside a line, and those behind it.
-/
namespace MarkupTemplate.Host.Lexeme

/-! ## Every lexeme takes a character -/

theorem digitRun_of_not {isDigit : Char → Bool} {c : Char} (h : isDigit c = false)
    (rest : List Char) : digitRun isDigit (c :: rest) = 0 := by
  unfold digitRun
  split <;> simp_all

theorem digitRun_pos {isDigit : Char → Bool} {c : Char} (h : isDigit c = true)
    (rest : List Char) : 0 < digitRun isDigit (c :: rest) := by
  unfold digitRun
  split <;> simp_all
  split <;> omega

/-- The rest of a text behind some of its characters, at least one. -/
def Follows (s rest : List Char) : Prop := ∃ n, 0 < n ∧ rest = s.drop n

theorem Follows.suffix {s rest : List Char} (h : Follows s rest) : rest <:+ s := by
  obtain ⟨n, -, rfl⟩ := h
  exact List.drop_suffix n s

theorem Follows.length_lt {s rest : List Char} (h : Follows s rest) (hs : s ≠ []) :
    rest.length < s.length := by
  obtain ⟨n, hn, rfl⟩ := h
  have := List.length_pos_iff.mpr hs
  rw [List.length_drop]
  omega

theorem follows_imaginary? {number after rest : List Char} {v : Literal}
    (h : imaginary? number after = some (some (v, rest))) : Follows after rest := by
  unfold imaginary? at h
  split at h
  · split at h
    · split at h
      · simp only [Option.some.injEq, Option.map_eq_some_iff] at h
        obtain ⟨x, -, hx⟩ := h
        cases hx
        exact ⟨1, Nat.one_pos, rfl⟩
      · cases h
    · cases h
  · cases h

theorem follows_decimalNumber? {s rest : List Char} {v : Literal}
    (h : decimalNumber? s = some (v, rest))
    (hs : 0 < digitRun Char.isDigit s + fractionLength (s.drop (digitRun Char.isDigit s))) :
    Follows s rest := by
  unfold decimalNumber? at h
  dsimp only at h
  split at h
  · next i hi =>
    subst h
    obtain ⟨n, -, rfl⟩ := follows_imaginary? hi
    rw [List.drop_drop]
    exact ⟨_, Nat.add_pos_left (Nat.add_pos_left hs _) n, rfl⟩
  split at h
  · cases h
  split at h
  · split at h
    · cases h
    · cases h
      exact ⟨_, Nat.add_pos_left hs _, rfl⟩
  · obtain ⟨x, -, hx⟩ := Option.map_eq_some_iff.mp h
    cases hx
    exact ⟨_, Nat.add_pos_left hs _, rfl⟩

theorem exists_skipUnderscore_eq (s : List Char) : ∃ n, skipUnderscore s = s.drop n := by
  unfold skipUnderscore
  split
  · exact ⟨1, rfl⟩
  · exact ⟨0, rfl⟩

theorem exists_radixNumber?_eq {base : Nat} {isDigit : Char → Bool} {s rest : List Char}
    {v : Literal} (h : radixNumber? base isDigit s = some (v, rest)) : ∃ n, rest = s.drop n := by
  obtain ⟨n, hn⟩ := exists_skipUnderscore_eq s
  unfold radixNumber? at h
  dsimp only at h
  split at h
  · cases h
  · cases h
    rw [hn, List.drop_drop]
    exact ⟨_, rfl⟩

/-- A number that starts with a digit, or with a point and a digit, takes a character. -/
theorem follows_number? {c : Char} {s rest : List Char} {v : Literal}
    (h : number? (c :: s) = some (v, rest))
    (hc : (c.isDigit || (c == '.' && s.head?.any Char.isDigit)) = true) :
    Follows (c :: s) rest := by
  have hdecimal (hd : decimalNumber? (c :: s) = some (v, rest)) : Follows (c :: s) rest := by
    refine follows_decimalNumber? hd ?_
    rw [Bool.or_eq_true, Bool.and_eq_true, beq_iff_eq] at hc
    obtain hw | ⟨rfl, -⟩ := hc
    · exact Nat.add_pos_left (digitRun_pos hw s) _
    · rw [digitRun_of_not (by decide) s, List.drop_zero]
      exact Nat.succ_pos _
  unfold number? at h
  split at h
  · next mark rest' he =>
    cases he
    have hradix (base : Nat) (isDigit : Char → Bool)
        (hr : radixNumber? base isDigit rest' = some (v, rest)) :
        Follows ('0' :: mark :: rest') rest := by
      obtain ⟨n, rfl⟩ := exists_radixNumber?_eq hr
      exact ⟨n + 2, Nat.succ_pos _, rfl⟩
    split at h
    · exact hradix _ _ h
    split at h
    · exact hradix _ _ h
    split at h
    · exact hradix _ _ h
    · exact hdecimal h
  · exact hdecimal h

theorem length_string?_lt {formatted raw : Bool} {q : Char} {s rest : List Char} {x : Lexeme}
    (h : string? formatted raw q s = some (x, rest)) (hs : s ≠ []) : rest.length < s.length := by
  have hpos := List.length_pos_iff.mpr hs
  unfold string? at h
  dsimp only at h
  obtain ⟨n, -, hx⟩ := Option.map_eq_some_iff.mp h
  cases hx
  rw [List.length_drop, List.length_drop]
  split <;> simp only [List.length_cons] <;> omega

/-- The shortest operator has one character. -/
theorem length_operator?_pos {s : List Char} {sign : String} (h : operator? s = some sign) :
    0 < sign.length := by
  have hall : operators.all (fun o => 0 < o.length) = true := by decide
  exact of_decide_eq_true (List.all_eq_true.mp hall sign (List.mem_of_find?_eq_some h))

theorem length_stepAtWord?_le {st st' : State} {word after rest : List Char} {x : Lexeme}
    (h : stepAtWord? st word after = some (x, st', rest)) : rest.length ≤ after.length := by
  unfold stepAtWord? at h
  split at h
  · next q _ _ hq _ =>
    split at h
    · obtain ⟨a, ha, hx⟩ := Option.map_eq_some_iff.mp h
      cases hx
      refine Nat.le_of_lt (length_string?_lt ha ?_)
      rintro rfl
      cases hq
    · cases h
      exact Nat.le_refl _
  · cases h
    exact Nat.le_refl _

/-- A lexeme takes a character. -/
theorem length_step?_lt {st st' : State} {s rest : List Char} {x : Lexeme}
    (h : step? st s = some (x, st', rest)) : rest.length < s.length := by
  unfold step? at h
  split at h
  · cases h
  · next c s =>
    have hne := List.cons_ne_nil c s
    split at h
    · obtain ⟨a, ha, hx⟩ := Option.map_eq_some_iff.mp h
      cases hx
      exact length_string?_lt ha hne
    split at h
    · refine Nat.lt_succ_of_le (Nat.le_trans (length_stepAtWord?_le h) ?_)
      exact (List.dropWhile_suffix _).length_le
    split at h
    · next hc =>
      obtain ⟨a, ha, hx⟩ := Option.map_eq_some_iff.mp h
      cases hx
      exact (follows_number? ha hc).length_lt hne
    · simp only [stepAtSign?, Option.bind_eq_bind, Option.bind_eq_some_iff] at h
      obtain ⟨sign, hsign, st₁, -, hx⟩ := h
      cases hx
      have := length_operator?_pos hsign
      simp only [List.length_drop, List.length_cons]
      omega

/-! ## The lexemes from a place on -/

theorem length_indentation_le (held : Nat) (start : Indent) (s : List Char) :
    (indentation held start s).2.length ≤ s.length := by
  fun_induction indentation held start s with
  | case1 held start rest ih => exact Nat.le_succ_of_le ih
  | case2 held start rest ih => exact Nat.le_succ_of_le ih
  | case3 held start rest ih => exact Nat.le_succ_of_le ih
  | case4 held start c rest ih => exact Nat.le_succ_of_le (Nat.le_succ_of_le ih)
  | case5 => exact Nat.le_refl _

/-- What is left to be done: the rest of the text, and the way into its line. -/
def reach (st : State) (s : List Char) : Nat := 2 * s.length + if st.lineStart then 1 else 0

theorem reach_le (st : State) (s : List Char) : reach st s ≤ 2 * s.length + 1 := by
  unfold reach
  split <;> omega

theorem le_reach (st : State) (s : List Char) : 2 * s.length ≤ reach st s := Nat.le_add_right _ _

theorem length_dropWhile_le (p : Char → Bool) (s : List Char) :
    (s.dropWhile p).length ≤ s.length := (List.dropWhile_suffix p).length_le

/-- Every step leaves less to be done. -/
theorem reach_next?_lt {st st' : State} {s rest : List Char} {lexemes : List Lexeme}
    (h : next? st s = some (.go lexemes st' rest)) : reach st' rest < reach st s := by
  unfold next? at h
  split at h
  · next hst =>
    have hlen := length_indentation_le 0 ⟨0, 0⟩ s
    unfold nextAtLine? at h
    dsimp only at h
    have hs : reach st s = 2 * s.length + 1 := by rw [reach, if_pos hst]
    have := reach_le st' rest
    split at h
    · split at h <;> cases h
    · next more hr =>
      cases h
      rw [hr, List.length_cons] at hlen
      omega
    · next more hr =>
      cases h
      rw [hr, List.length_cons] at hlen
      have := length_dropWhile_le (· != '\n') more
      omega
    · obtain ⟨⟨marks, indents⟩, -, hx⟩ := Option.map_eq_some_iff.mp h
      cases hx
      rw [hs, reach, if_neg (by simp)]
      omega
  · have := le_reach st s
    have := reach_le st' rest
    unfold nextInLine? at h
    split at h
    · split at h <;> cases h
    · split at h <;> cases h <;> simp only [List.length_cons] at * <;> omega
    · next more =>
      cases h
      have := length_dropWhile_le (· != '\n') more
      simp only [List.length_cons] at *
      omega
    · split at h <;> cases h
      simp only [List.length_cons] at *
      omega
    · split at h
      · cases h
        simp only [List.length_cons] at *
        omega
      · obtain ⟨⟨x, st₁, after⟩, hx, he⟩ := Option.map_eq_some_iff.mp h
        cases he
        have := length_step?_lt hx
        omega

theorem run_congr {fuel fuel' : Nat} {st : State} {s : List Char} (h : reach st s < fuel)
    (h' : reach st s < fuel') : run fuel st s = run fuel' st s := by
  induction fuel generalizing fuel' st s with
  | zero => omega
  | succ fuel ih =>
    cases fuel' with
    | zero => omega
    | succ fuel' =>
      unfold run
      split
      · rfl
      · next lexemes st' rest hgo =>
        have := reach_next?_lt hgo
        have hrest : run fuel st' rest = run fuel' st' rest := ih (by omega) (by omega)
        rw [hrest]
      · rfl

/-- The lexemes of a source from a place on. -/
def lexemesAt (st : State) (s : List Char) : Option (List Lexeme) :=
  run (2 * s.length + 2) st s

/-- The lexemes behind a step. -/
def behind : Option Next → Option (List Lexeme)
  | some (.done lexemes) => some lexemes
  | some (.go lexemes st rest) => (lexemesAt st rest).map (lexemes ++ ·)
  | none => none

/-- The lexemes of the next step, and those behind it. -/
theorem lexemesAt_eq (st : State) (s : List Char) : lexemesAt st s = behind (next? st s) := by
  rw [lexemesAt, run]
  split
  · next hdone => rw [hdone, behind]
  · next lexemes st' rest hgo =>
    have hlt := reach_next?_lt hgo
    have := reach_le st s
    rw [hgo, behind, lexemesAt, run_congr (by omega) (Nat.lt_succ_of_le (reach_le st' rest))]
  · next hnone => rw [hnone, behind]

/-- True of a character that may open a lexeme inside a line. -/
def opensLexeme (c : Char) : Bool :=
  !(c == '\n' || c == '#' || c == '\\' || c == ' ' || c == '\t' || c == '\x0c')

theorem nextInLine?_of_opens {st : State} {c : Char} (h : opensLexeme c = true)
    (rest : List Char) : nextInLine? st (c :: rest)
      = (step? st (c :: rest)).map fun (lexeme, st, after) => .go [lexeme] st after := by
  simp only [opensLexeme, Bool.not_eq_true', Bool.or_eq_false_iff, beq_eq_false_iff_ne] at h
  obtain ⟨⟨⟨⟨⟨hfeed, hcomment⟩, hjoin⟩, hspace⟩, htab⟩, hform⟩ := h
  unfold nextInLine?
  split
  · next he => cases he
  · next he => cases he; exact absurd rfl hfeed
  · next he => cases he; exact absurd rfl hcomment
  · next he => cases he; exact absurd rfl hjoin
  · next he =>
    cases he
    rw [if_neg (by simp [hspace, htab, hform])]

variable {closers : List Char} {indents : List Indent}

/-- The next lexeme inside a line, and those behind it. -/
theorem lexemesAt_step? {s : List Char} (hs : s.head?.any opensLexeme = true) :
    lexemesAt ⟨closers, indents, false⟩ s
      = (step? ⟨closers, indents, false⟩ s).bind fun (x, st, after) =>
          (lexemesAt st after).map (x :: ·) := by
  cases s with
  | nil => cases hs
  | cons c rest =>
    rw [lexemesAt_eq]
    change behind (nextInLine? _ _) = _
    rw [nextInLine?_of_opens hs]
    cases step? ⟨closers, indents, false⟩ (c :: rest) <;> rfl

theorem lexemesAt_opener (b : Bracket) (rest : List Char) :
    lexemesAt ⟨closers, indents, false⟩ (b.opener :: rest)
      = (lexemesAt ⟨b.closer :: closers, indents, false⟩ rest).map
          (.op (String.singleton b.opener) :: ·) := by
  rw [lexemesAt_step? (s := b.opener :: rest) (by cases b <;> rfl)]
  cases b <;> rfl

theorem lexemesAt_closer (b : Bracket) (rest : List Char) :
    lexemesAt ⟨b.closer :: closers, indents, false⟩ (b.closer :: rest)
      = (lexemesAt ⟨closers, indents, false⟩ rest).map
          (.op (String.singleton b.closer) :: ·) := by
  rw [lexemesAt_step? (s := b.closer :: rest) (by cases b <;> rfl)]
  cases b <;> rfl

theorem lexemesAt_gap {c : Char} (hc : c = ' ' ∨ c = '\t' ∨ c = '\x0c') (rest : List Char) :
    lexemesAt ⟨closers, indents, false⟩ (c :: rest)
      = lexemesAt ⟨closers, indents, false⟩ rest := by
  rw [lexemesAt_eq]
  obtain rfl | rfl | rfl := hc <;> exact Option.map_id_apply

/-- Inside brackets a line feed is a blank. -/
theorem lexemesAt_lineFeed (closer : Char) (rest : List Char) :
    lexemesAt ⟨closer :: closers, indents, false⟩ ('\n' :: rest)
      = lexemesAt ⟨closer :: closers, indents, false⟩ rest := by
  rw [lexemesAt_eq]
  exact Option.map_id_apply

/-- At the start of a text that starts with a bracket, the line starts without a mark. -/
theorem lexemesAt_start (b : Bracket) (rest : List Char) :
    lexemesAt ⟨[], [⟨0, 0⟩], true⟩ (b.opener :: rest)
      = lexemesAt ⟨[], [⟨0, 0⟩], false⟩ (b.opener :: rest) := by
  rw [lexemesAt_eq]
  cases b <;> exact Option.map_id_apply

theorem ofText?_eq (source : List Char) :
    ofText? source = lexemesAt ⟨[], [⟨0, 0⟩], true⟩ (Text.unifyNewlines source) := by
  have hle := Text.length_unifyNewlines_le source
  have := reach_le ⟨[], [⟨0, 0⟩], true⟩ (Text.unifyNewlines source)
  exact run_congr (by omega) (by omega)

end MarkupTemplate.Host.Lexeme
