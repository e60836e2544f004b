import MarkupTemplate.Proofs.Host.Piece
import MarkupTemplate.Proofs.Host.Relaid

/-!
# A run of signs is cut by itself

Names, numbers and operators end where a blank, a quote or a bracket stands. So the pieces of a run
of signs are the same whatever stands behind it, unless that is a quote and the run marks the string
literal that starts there.

* `Piece.numberLength_append`: a number in front of a stop.
* `Piece.quoteAt?_append`: the string literal that a run marks.
* `Piece.exists_stepInLine_signs`: the piece at the front of a run of signs.
-/
namespace MarkupTemplate.Host

variable {u t : List Char}

namespace Piece

variable {isDigit : Char → Bool}

/-! ## Numbers -/

theorem groupedDigits_stop (hd : stops.any isDigit = false) (ht : Stops t) :
    groupedDigits isDigit t = 0 := by
  cases t with
  | nil => rfl
  | cons c t =>
    have hc := ht.not hd c rfl
    have hscore : c ≠ '_' := ht.ne (by decide)
    unfold groupedDigits
    split
    · rfl
    · next he => cases he; exact absurd rfl hscore
    · next he => cases he; rw [hc]; rfl

theorem groupedDigits_cons {c : Char} (hc : c ≠ '_') (s : List Char) :
    groupedDigits isDigit (c :: s) = if isDigit c then groupedDigits isDigit s + 1 else 0 := by
  rw [groupedDigits]
  exact fun d rest he => absurd he hc

theorem groupedDigits_append (hd : stops.any isDigit = false) (hs : isDigit '_' = false)
    (ht : Stops t) (u : List Char) :
    groupedDigits isDigit (u ++ t) = groupedDigits isDigit u := by
  fun_induction groupedDigits isDigit u with
  | case1 => exact groupedDigits_stop hd ht
  | case2 d rest h ih => simp [groupedDigits, h, ih]
  | case3 d rest h => simp [groupedDigits, h]
  | case4 d rest hne h ih =>
    have hscore : d ≠ '_' := by
      rintro rfl
      rw [hs] at h
      cases h
    rw [List.cons_append, groupedDigits_cons hscore, if_pos h, ih]
  | case5 d rest hne h =>
    by_cases hscore : d = '_'
    · subst hscore
      cases rest with
      | nil =>
        cases t with
        | nil => simp [groupedDigits, hs]
        | cons e t => simp [groupedDigits, ht.not hd e rfl]
      | cons e rest => exact absurd rfl (hne e rest rfl)
    · rw [List.cons_append, groupedDigits_cons hscore, if_neg h]

theorem groupedDigits_le (isDigit : Char → Bool) (u : List Char) :
    groupedDigits isDigit u ≤ u.length := by
  fun_induction groupedDigits isDigit u with
  | case1 => exact Nat.le_refl _
  | case2 d rest h ih => simp only [List.length_cons]; omega
  | case3 d rest h => exact Nat.zero_le _
  | case4 d rest hne h ih => simp only [List.length_cons]; omega
  | case5 d rest hne h => exact Nat.zero_le _

theorem digits_append (ht : Stops t) (u : List Char) : digits (u ++ t) = digits u := by
  cases u with
  | nil =>
    cases t with
    | nil => rfl
    | cons c t => simp [digits, ht.not (p := Char.isDigit) (by decide) c rfl]
  | cons c u =>
    have hrest : groupedDigits Char.isDigit (u ++ t) = groupedDigits Char.isDigit u :=
      groupedDigits_append (by decide) (by decide) ht u
    simp only [digits, List.cons_append, hrest]

theorem digits_le (u : List Char) : digits u ≤ u.length := by
  cases u with
  | nil => exact Nat.le_refl _
  | cons c u =>
    have := groupedDigits_le Char.isDigit u
    dsimp only [digits]
    split <;> simp only [List.length_cons] <;> omega

theorem signLength_append (ht : Stops t) (u : List Char) : signLength (u ++ t) = signLength u := by
  simp only [signLength, head?_append_stop ht (d := '+') (by decide),
    head?_append_stop ht (d := '-') (by decide)]

theorem signLength_le (u : List Char) : signLength u ≤ u.length := by
  cases u with
  | nil => exact Nat.le_refl _
  | cons c u =>
    unfold signLength
    split <;> simp only [List.length_cons] <;> omega

theorem exponent_append (ht : Stops t) (u : List Char) : exponent (u ++ t) = exponent u := by
  cases u with
  | nil =>
    cases t with
    | nil => rfl
    | cons c t => simp [exponent, ht.not (p := fun c => c == 'e' || c == 'E') (by decide) c rfl]
  | cons c u =>
    simp only [exponent, List.cons_append, signLength_append ht,
      List.drop_append_of_le_length (signLength_le u), digits_append ht]

theorem exponent_le (u : List Char) : exponent u ≤ u.length := by
  cases u with
  | nil => exact Nat.le_refl _
  | cons c u =>
    have hdigits := digits_le (u.drop (signLength u))
    have hsign := signLength_le u
    rw [List.length_drop] at hdigits
    unfold exponent
    dsimp only
    split
    · split <;> simp only [List.length_cons] <;> omega
    · exact Nat.zero_le _

theorem fractionLength_append (ht : Stops t) (u : List Char) :
    fractionLength (u ++ t) = fractionLength u := by
  have hdot {c : Char} (hc : c ≠ '.') (s : List Char) : fractionLength (c :: s) = 0 := by
    rw [fractionLength]
    exact fun rest he => hc (List.cons.inj he).1
  cases u with
  | nil =>
    cases t with
    | nil => rfl
    | cons c t => exact hdot (ht.ne (by decide)) t
  | cons c u =>
    by_cases hc : c = '.'
    · subst hc
      exact congrArg (· + 1) (digits_append ht u)
    · rw [List.cons_append, hdot hc, hdot hc]

theorem fractionLength_le (u : List Char) : fractionLength u ≤ u.length := by
  unfold fractionLength
  split
  · exact Nat.succ_le_succ (digits_le _)
  · exact Nat.zero_le _

theorem floatLength_append (ht : Stops t) (u : List Char) :
    floatLength (u ++ t) = floatLength u := by
  have hwhole := digits_le u
  have hfraction := drop_le_length hwhole (fractionLength_le (u.drop (digits u)))
  simp only [floatLength, digits_append ht, List.drop_append_of_le_length hwhole,
    fractionLength_append ht, List.drop_append_of_le_length hfraction, exponent_append ht]

theorem floatLength_le (u : List Char) : floatLength u ≤ u.length := by
  have hwhole := digits_le u
  have hfraction := drop_le_length hwhole (fractionLength_le (u.drop (digits u)))
  have hexponent := drop_le_length hfraction (exponent_le _)
  unfold floatLength
  dsimp only
  split
  · exact Nat.zero_le _
  · exact hexponent

theorem radixDigit?_stop {mark : Char} (h : radixDigit? mark = some isDigit) :
    stops.any isDigit = false ∧ isDigit '_' = false := by
  unfold radixDigit? at h
  split at h
  · cases h
    decide
  split at h
  · cases h
    decide
  split at h
  · cases h
    decide
  · cases h

theorem radixLength_of_ne {c : Char} (hc : c ≠ '0') (s : List Char) : radixLength (c :: s) = 0 := by
  unfold radixLength
  split
  · next he => exact absurd (List.cons.inj he).1 hc
  · rfl

theorem radixLength_append (ht : Stops t) (u : List Char) :
    radixLength (u ++ t) = radixLength u := by
  have hstop {c : Char} (hc : c ∈ t.head?) : c ≠ '0' ∧ radixDigit? c = none :=
    have hnot := ht.not (p := fun c => c == '0' || (radixDigit? c).isSome) (by decide) c hc
    by simpa using hnot
  match u with
  | [] =>
    cases t with
    | nil => rfl
    | cons c t => exact radixLength_of_ne (hstop rfl).1 t
  | [c] =>
    by_cases hc : c = '0'
    · subst hc
      cases t with
      | nil => rfl
      | cons d t => simp [radixLength, (hstop (c := d) rfl).2]
    · exact (radixLength_of_ne hc t).trans (radixLength_of_ne hc []).symm
  | c :: d :: u =>
    by_cases hc : c = '0'
    · subst hc
      simp only [radixLength, List.cons_append]
      split
      · next hd =>
        obtain ⟨hany, hscore⟩ := radixDigit?_stop hd
        rw [groupedDigits_append hany hscore ht]
      · rfl
    · exact (radixLength_of_ne hc _).trans (radixLength_of_ne hc _).symm

theorem radixLength_le (u : List Char) : radixLength u ≤ u.length := by
  unfold radixLength
  split
  · next mark rest =>
    split
    · next isDigit _ =>
      have := groupedDigits_le isDigit rest
      dsimp only
      split <;> simp only [List.length_cons] <;> omega
    · exact Nat.zero_le _
  · exact Nat.zero_le _

theorem wholeLength_of_ne {c : Char} (hc : c ≠ '0') (s : List Char) :
    wholeLength (c :: s) = digits (c :: s) := by
  rw [wholeLength]
  exact fun rest he => hc (List.cons.inj he).1

theorem wholeLength_append (ht : Stops t) (u : List Char) :
    wholeLength (u ++ t) = wholeLength u := by
  cases u with
  | nil =>
    cases t with
    | nil => rfl
    | cons c t =>
      have hc : c ≠ '0' := ht.ne (by decide)
      exact (wholeLength_of_ne hc t).trans (digits_append ht [])
  | cons c u =>
    by_cases hc : c = '0'
    · subst hc
      exact congrArg (· + 1) (groupedDigits_append (by decide) (by decide) ht u)
    · rw [List.cons_append, wholeLength_of_ne hc, wholeLength_of_ne hc]
      exact digits_append ht (c :: u)

theorem wholeLength_le (u : List Char) : wholeLength u ≤ u.length := by
  unfold wholeLength
  split
  · exact Nat.succ_le_succ (groupedDigits_le _ _)
  · exact digits_le u

/-- A number ends where a stop stands. -/
theorem numberLength_append (ht : Stops t) (u : List Char) :
    numberLength (u ++ t) = numberLength u := by
  have hj (c : Char) (hc : c ∉ stops) {n : Nat} (hn : n ≤ u.length) :
      (((u ++ t).drop n).head? == some c) = ((u.drop n).head? == some c) := by
    rw [List.drop_append_of_le_length hn, head?_append_stop ht hc]
  simp only [numberLength, digits_append ht, floatLength_append ht, radixLength_append ht,
    wholeLength_append ht, hj 'j' (by decide) (digits_le u), hj 'J' (by decide) (digits_le u),
    hj 'j' (by decide) (floatLength_le u), hj 'J' (by decide) (floatLength_le u)]

theorem numberLength_le (u : List Char) : numberLength u ≤ u.length := by
  have hmark {n : Nat} (h : (n > 0 && ((u.drop n).head? == some 'j'
      || (u.drop n).head? == some 'J')) = true) : n + 1 ≤ u.length := by
    refine Nat.lt_of_not_le fun hle => ?_
    rw [List.drop_eq_nil_of_le hle] at h
    simp at h
  unfold numberLength
  dsimp only
  split
  · next h => exact hmark h
  split
  · next h => exact hmark h
  split
  · exact floatLength_le u
  split
  · exact radixLength_le u
  · exact wholeLength_le u

/-! ## String literals -/

/-- True of letters that mark a string literal behind them. -/
def marks (u : List Char) : Bool :=
  match u with
  | [_] => markLetters u == u
  | [_, _] => isDoubleMark (markLetters u)
  | _ => false

/-- A mark has one letter or two. -/
theorem length_lt_of_marks (h : marks u = true) : u.length < 3 := by
  rcases u with _ | ⟨_, _ | ⟨_, _ | ⟨_, u⟩⟩⟩
  · cases h
  · exact Nat.succ_lt_succ (Nat.succ_pos 1)
  · exact Nat.lt_succ_self 2
  · cases h

/-- A stop is no letter of a mark. -/
theorem markLetters_cons (ht : Stops t) (c : Char) :
    markLetters (c :: t) = if isMarkLetter c then [c] else [] := by
  cases t with
  | nil => by_cases hc : isMarkLetter c = true <;> simp [markLetters, hc]
  | cons d t =>
    have hd : isMarkLetter d = false := ht.not (by decide) d rfl
    by_cases hc : isMarkLetter c = true <;> simp [markLetters, hc, hd]

/-- A string literal behind a run of signs is one that the run marks. -/
theorem markLength_append (ht : Stops t) (hu : ∀ c ∈ u, isSign c = true) (hne : u ≠ []) :
    markLength (u ++ t) = if marks u && t.head?.any isQuote then u.length else 0 := by
  have hsign {c : Char} (hc : c ∈ u) : isQuote c = false := isQuote_of_isSign (hu c hc)
  match u with
  | [] => exact absurd rfl hne
  | [c] =>
    have hc : isQuote c = false := hsign List.mem_cons_self
    have hmark := markLetters_cons ht c
    have hmark' := markLetters_cons .nil c
    by_cases hletter : isMarkLetter c = true <;>
      simp [markLength, hc, hmark, hmark', hletter, marks, isDoubleMark]
  | [c, d] =>
    have hc : isQuote c = false := hsign List.mem_cons_self
    have hd : isQuote d = false := hsign (by simp)
    have hmark : markLetters (c :: d :: t) = markLetters [c, d] := rfl
    simp [markLength, hc, hd, marks, hmark, and_comm]
  | c :: d :: e :: u =>
    have hc : isQuote c = false := hsign List.mem_cons_self
    have hd : isQuote d = false := hsign (by simp)
    have he : isQuote e = false := hsign (by simp)
    simp [markLength, hc, hd, he, marks]

/-- A string literal behind a run of signs is one that the run marks. -/
theorem quoteAt?_append (ht : Stops t) (hu : ∀ c ∈ u, isSign c = true) (hne : u ≠ []) :
    quoteAt? (u ++ t) = if marks u then t.head?.filter isQuote else none := by
  have hmark := markLength_append ht hu hne
  unfold quoteAt?
  by_cases hquote : (marks u && t.head?.any isQuote) = true
  · rw [if_pos hquote] at hmark
    rw [hmark, List.drop_left, if_pos (Bool.and_eq_true_iff.mp hquote).1]
  · rw [if_neg hquote] at hmark
    rw [hmark]
    cases u with
    | nil => exact absurd rfl hne
    | cons c u =>
      have hc := isQuote_of_isSign (hu c List.mem_cons_self)
      have hnone : (((c :: u) ++ t).drop 0).head?.filter isQuote = none := by
        simp [hc]
      rw [hnone]
      split
      · next hm =>
        rw [hm, Bool.true_and] at hquote
        cases hhead : t.head? with
        | none => rfl
        | some q =>
          rw [hhead] at hquote
          have hq : isQuote q = false := Bool.eq_false_iff.mpr hquote
          exact (Option.filter_some_neg hq).symm
      · rfl

theorem opensToken_of_isSign {c : Char} (h : isSign c = true) : opensToken c = true := by
  obtain ⟨hstops, -, hcomment, hjoin⟩ := isSign_iff.mp h
  have hne {d : Char} (hd : d ∈ stops) : c ≠ d := ne_of_isSign h hd
  simp [opensToken, isGap, hcomment, hjoin, hne (d := ' ') (by decide),
    hne (d := '\t') (by decide), hne (d := '\x0c') (by decide), hne (d := '\n') (by decide),
    hne (d := '\r') (by decide)]

theorem openedBy?_of_isSign {c : Char} (h : isSign c = true) :
    Bracket.openedBy? c = none ∧ Bracket.closedBy? c = none := by
  have hne {d : Char} (hd : d ∈ stops) : c ≠ d := ne_of_isSign h hd
  constructor
  · simp [Bracket.openedBy?, Bracket.opener, hne (d := '(') (by decide),
      hne (d := '[') (by decide), hne (d := '\x7b') (by decide)]
  · simp [Bracket.closedBy?, Bracket.closer, hne (d := ')') (by decide),
      hne (d := ']') (by decide), hne (d := '\x7d') (by decide)]

/-- The next piece of a run of signs, unless the run marks a literal. -/
theorem exists_stepInLine_signs (hu : ∀ c ∈ u, isSign c = true) (hne : u ≠ []) :
    ∃ kind n, 0 < n ∧ n ≤ u.length ∧ (kind = .name ∨ kind = .other)
      ∧ ∀ st t, Stops t → quoteAt? (u ++ t) = none →
        stepInLine st (u ++ t) = .piece kind n .inLine st := by
  cases u with
  | nil => exact absurd rfl hne
  | cons c w =>
    have hsign := hu c List.mem_cons_self
    obtain ⟨hopen, hclose⟩ := openedBy?_of_isSign hsign
    have hopens := opensToken_of_isSign hsign
    have hdots {t : List Char} (ht : Stops t) : ['.', '.', '.'].isPrefixOf ((c :: w) ++ t)
        = ['.', '.', '.'].isPrefixOf (c :: w) :=
      isPrefixOf_append_stop ht (by decide) (c :: w)
    by_cases hthree : ['.', '.', '.'].isPrefixOf (c :: w) = true
    · refine ⟨.other, 3, by decide, (List.isPrefixOf_iff_prefix.mp hthree).length_le, .inr rfl, ?_⟩
      intro st t ht _
      rw [List.cons_append, stepInLine_of_opens hopens, ← List.cons_append, hdots ht, if_pos hthree]
    have htoken {st : State} {t : List Char} (ht : Stops t)
        (hquote : quoteAt? ((c :: w) ++ t) = none) : stepInLine st ((c :: w) ++ t)
          = if 0 < numberLength (c :: w) then .piece .other (numberLength (c :: w)) .inLine st
            else stepAtSign st c (w ++ t) := by
      rw [List.cons_append, stepInLine_of_opens hopens, ← List.cons_append, hdots ht,
        if_neg hthree, stepAtToken]
      simp only [← List.cons_append, hquote, numberLength_append ht]
    by_cases hnumber : 0 < numberLength (c :: w)
    · refine ⟨.other, _, hnumber, numberLength_le _, .inr rfl, fun st t ht hquote => ?_⟩
      rw [htoken ht hquote, if_pos hnumber]
    by_cases hname : isNamePart c = true
    · refine ⟨if Text.isIdentStart c then .name else .other,
        (w.takeWhile isNamePart).length.succ, Nat.succ_pos _,
        Nat.succ_le_succ (List.takeWhile_prefix _).length_le, ?_, fun st t ht hquote => ?_⟩
      · split
        · exact .inl rfl
        · exact .inr rfl
      · rw [htoken ht hquote, if_neg hnumber, stepAtSign, hopen, hclose]
        simp only [Option.isSome_none, Bool.false_eq_true, if_false, hname, if_true,
          takeWhile_append_stop ht (p := isNamePart) (by decide)]
    · refine ⟨.other, 1, Nat.one_pos, by simp, .inr rfl, fun st t ht hquote => ?_⟩
      rw [htoken ht hquote, if_neg hnumber, stepAtSign, hopen, hclose]
      simp [hname]

/-! ## Brackets and quotes -/

theorem quoteAt?_of_not_letter {c : Char} (hc : isMarkLetter c = false) (hq : isQuote c = false)
    (s : List Char) : quoteAt? (c :: s) = none := by
  have hletters : markLetters (c :: s) = [] := by simp [markLetters, hc]
  have hmark : markLength (c :: s) = 0 := by simp [markLength, hletters, hq, isDoubleMark]
  simp [quoteAt?, hmark, hq]

theorem stepInLine_opener (st : State) (b : Bracket) (s : List Char) :
    stepInLine st (b.opener :: s) = .piece .opener 1 .inLine { st with depth := st.depth + 1 } := by
  have hquote : quoteAt? (b.opener :: s) = none :=
    quoteAt?_of_not_letter (by cases b <;> decide) (by cases b <;> decide) s
  have hnumber : numberLength (b.opener :: s) = 0 :=
    numberLength_of_not_digit (by cases b <;> decide) (by cases b <;> decide) s
  rw [stepInLine_of_opens (by cases b <;> decide), if_neg (by cases b <;> simp [Bracket.opener]),
    stepAtToken]
  simp [hquote, hnumber, stepAtSign, Bracket.openedBy?_opener]

theorem stepInLine_closer (st : State) (b : Bracket) (s : List Char) :
    stepInLine st (b.closer :: s) = .piece .closer 1 .inLine { st with depth := st.depth - 1 } := by
  have hquote : quoteAt? (b.closer :: s) = none :=
    quoteAt?_of_not_letter (by cases b <;> decide) (by cases b <;> decide) s
  have hnumber : numberLength (b.closer :: s) = 0 :=
    numberLength_of_not_digit (by cases b <;> decide) (by cases b <;> decide) s
  have hopen : Bracket.openedBy? b.closer = none := by cases b <;> decide
  rw [stepInLine_of_opens (by cases b <;> decide), if_neg (by cases b <;> simp [Bracket.closer]),
    stepAtToken]
  simp [hquote, hnumber, stepAtSign, hopen, Bracket.closedBy?_closer]

/-- The step at the quote of a string literal and at the letters that mark it. -/
theorem stepInLine_quote {q : Char} (hq : isQuote q = true) (hu : ∀ c ∈ u, isSign c = true)
    (hmarks : u = [] ∨ marks u = true) (st : State) {s : List Char} (hs : s.head? = some q) :
    stepInLine st (u ++ s) = stepAtLiteral st u.length q s := by
  obtain ⟨s, rfl⟩ := List.head?_eq_some_iff.mp hs
  have hstop : Stops (q :: s) := .cons (mem_stops_of_isQuote hq) s
  have hmark : markLength (u ++ q :: s) = u.length := by
    obtain rfl | hm := hmarks
    · simp [markLength, hq]
    · have hne : u ≠ [] := by rintro rfl; cases hm
      rw [markLength_append hstop hu hne, if_pos]
      simp [hm, hq]
  have hquote : quoteAt? (u ++ q :: s) = some q := by
    simp [quoteAt?, hmark, hq]
  have hshort : u.length < 3 := by
    obtain rfl | hm := hmarks
    · decide
    · exact length_lt_of_marks hm
  have hdots : ¬ ['.', '.', '.'].isPrefixOf (u ++ q :: s) = true := by
    rw [isPrefixOf_append_stop hstop (by decide)]
    intro h
    exact absurd (List.isPrefixOf_iff_prefix.mp h).length_le (Nat.not_le.mpr hshort)
  have hdrop : (u ++ q :: s).drop u.length = q :: s := List.drop_left
  cases u with
  | nil =>
    have hopens : opensToken q = true := by
      simp only [isQuote, Bool.or_eq_true, beq_iff_eq] at hq
      obtain rfl | rfl := hq <;> decide
    rw [List.nil_append] at *
    rw [stepInLine_of_opens hopens, if_neg hdots, stepAtToken, hquote, hmark, hdrop]
  | cons c u =>
    have hopens := opensToken_of_isSign (hu c List.mem_cons_self)
    rw [List.cons_append] at *
    rw [stepInLine_of_opens hopens, if_neg hdots, stepAtToken, hquote, hmark, hdrop]

end Piece

end MarkupTemplate.Host
