import Mathlib.Data.List.Find
import Mathlib.Data.List.TakeWhile
import MarkupTemplate.Proofs.Host.Lexeme
import MarkupTemplate.Proofs.Host.Relaid

/-!
# A run of signs is read by itself

The lexemes of a run of signs, like its pieces, are the same whatever stands behind it, unless that
is a quote and the run marks the string literal that starts there.

* `Lexeme.number?_append`: a number in front of a stop.
* `Lexeme.operator?_append`: an operator in front of a stop.
* `Lexeme.stepInRun?`, `Lexeme.step?_signs`: the lexeme at the front of a run of signs.
-/
namespace MarkupTemplate.Host.Lexeme

variable {u t : List Char} {isDigit : Char → Bool}

/-! ## Numbers -/

theorem digitRun_stop (hd : stops.any isDigit = false) (ht : Stops t) : digitRun isDigit t = 0 := by
  cases t with
  | nil => rfl
  | cons c t => exact digitRun_of_not (ht.not hd c rfl) t

theorem digitRun_cons {s : List Char} (hs : ∀ d rest, s ≠ '_' :: d :: rest) (c : Char) :
    digitRun isDigit (c :: s) = if isDigit c then digitRun isDigit s + 1 else 0 := by
  rw [digitRun]
  exact hs

theorem digitRun_append (hd : stops.any isDigit = false) (hs : isDigit '_' = false) (ht : Stops t)
    (u : List Char) : digitRun isDigit (u ++ t) = digitRun isDigit u := by
  fun_induction digitRun isDigit u with
  | case1 => exact digitRun_stop hd ht
  | case2 c d rest hc hdigit ih => simp [digitRun, hc, hdigit, ← ih]
  | case3 c d rest hc hdigit => simp [digitRun, hc, hdigit]
  | case4 c d rest hc => simp [digitRun, hc]
  | case5 c rest hne hc ih =>
    match rest with
    | [] =>
      rw [List.singleton_append, digitRun_cons ?_, if_pos hc, digitRun_stop hd ht]
      · rfl
      · rintro d rest rfl
        exact ht.ne (by decide) rfl
    | e :: d :: rest =>
      have he : ∀ d' rest', e :: d :: rest ++ t ≠ '_' :: d' :: rest' := by
        rintro d' rest' h
        cases h
        exact hne d rest rfl
      rw [List.cons_append, digitRun_cons he, if_pos hc, ih]
    | [e] =>
      by_cases he : e = '_'
      · subst he
        cases t with
        | nil => simp [digitRun, hc]
        | cons d t => simp [digitRun, hc, hs, ht.not hd d rfl]
      · have hne' : ∀ d rest, e :: [] ++ t ≠ '_' :: d :: rest := by
          rintro d rest h
          cases h
          exact he rfl
        rw [List.cons_append, digitRun_cons hne', if_pos hc, ih]
  | case6 c rest hne hc => rw [List.cons_append, digitRun_of_not (by simpa using hc)]

theorem digitRun_le (isDigit : Char → Bool) (u : List Char) : digitRun isDigit u ≤ u.length := by
  fun_induction digitRun isDigit u with
  | case2 c d rest hc hdigit ih => simp only [List.length_cons] at *; omega
  | case5 c rest hne hc ih => simp only [List.length_cons]; omega
  | _ => simp only [List.length_cons, List.length_nil]; omega

theorem exponentLength_append (ht : Stops t) (u : List Char) :
    exponentLength (u ++ t) = exponentLength u := by
  have hrun (u : List Char) : digitRun Char.isDigit (u ++ t) = digitRun Char.isDigit u :=
    digitRun_append (by decide) (by decide) ht u
  match u with
  | [] =>
    cases t with
    | nil => rfl
    | cons c t =>
      have := ht.not (p := fun c => c == 'e' || c == 'E') (by decide) c rfl
      simp only [Bool.or_eq_false_iff] at this
      simp [exponentLength, this]
  | [e] =>
    cases t with
    | nil => rfl
    | cons c t =>
      have hsign := ht.not (p := fun c => c == '+' || c == '-') (by decide) c rfl
      have hdigit := ht.not (p := Char.isDigit) (by decide) c rfl
      simp only [List.singleton_append, exponentLength, hsign, digitRun_of_not hdigit]
      simp
  | e :: sign :: u =>
    have hwhole := hrun (sign :: u)
    simp only [List.cons_append] at hwhole
    simp only [List.cons_append, exponentLength, hrun, hwhole]

theorem exponentLength_le (u : List Char) : exponentLength u ≤ u.length := by
  unfold exponentLength
  split
  · next e rest =>
    split
    · split
      · next sign more =>
        have hmore := digitRun_le Char.isDigit more
        have hrest := digitRun_le Char.isDigit (sign :: more)
        dsimp only
        split <;> split <;> simp only [List.length_cons] at * <;> omega
      · exact Nat.zero_le _
    · exact Nat.zero_le _
  · exact Nat.le_refl _

theorem fractionLength_append (ht : Stops t) (u : List Char) :
    fractionLength (u ++ t) = fractionLength u := by
  have hdot {c : Char} (hc : c ≠ '.') (s : List Char) : fractionLength (c :: s) = 0 := by
    rw [fractionLength]
    exact fun rest he => hc (List.cons.inj he).1
  cases u with
  | nil =>
    cases t with
    | nil => rfl
    | cons c t => exact hdot (ht.ne (by decide)) t
  | cons c u =>
    by_cases hc : c = '.'
    · subst hc
      exact congrArg (· + 1) (digitRun_append (by decide) (by decide) ht u)
    · rw [List.cons_append, hdot hc, hdot hc]

theorem fractionLength_le (u : List Char) : fractionLength u ≤ u.length := by
  unfold fractionLength
  split
  · exact Nat.succ_le_succ (digitRun_le _ _)
  · exact Nat.zero_le _

theorem isNamePart_stop (ht : Stops t) : ∀ c ∈ t.head?, isNamePart c = false :=
  ht.not (by decide)

theorem mayFollowNumber_append (ht : Stops t) (u : List Char) :
    mayFollowNumber (u ++ t) = mayFollowNumber u := by
  cases u with
  | nil =>
    cases t with
    | nil => rfl
    | cons c t => simp [mayFollowNumber, isNamePart_stop ht c rfl]
  | cons c u =>
    have hword (w : String) (hw : w.toList.any stops.contains = false) :
        w.toList.isPrefixOf (c :: (u ++ t)) = w.toList.isPrefixOf (c :: u) :=
      isPrefixOf_append_stop ht hw (c :: u)
    simp only [mayFollowNumber, List.cons_append, List.any_cons, List.any_nil,
      hword "and" (by decide), hword "else" (by decide), hword "for" (by decide),
      hword "if" (by decide), hword "in" (by decide), hword "is" (by decide),
      hword "not" (by decide), hword "or" (by decide)]

/-- A text behind what is left of a text. -/
def before {α : Type} (t : List Char) (r : α × List Char) : α × List Char := (r.1, r.2 ++ t)

theorem skipUnderscore_append (ht : Stops t) (u : List Char) :
    skipUnderscore (u ++ t) = skipUnderscore u ++ t := by
  have hscore {c : Char} (hc : c ≠ '_') (s : List Char) : skipUnderscore (c :: s) = c :: s := by
    rw [skipUnderscore]
    exact fun rest he => hc (List.cons.inj he).1
  cases u with
  | nil =>
    cases t with
    | nil => rfl
    | cons c t => exact hscore (ht.ne (by decide)) t
  | cons c u =>
    by_cases hc : c = '_'
    · subst hc
      rfl
    · rw [List.cons_append, hscore hc, hscore hc, List.cons_append]

theorem any_head?_append (ht : Stops t) {p : Char → Bool} (hp : stops.any p = false)
    (u : List Char) : (u ++ t).head?.any p = u.head?.any p := by
  cases u with
  | nil =>
    cases t with
    | nil => rfl
    | cons c t => exact ht.not hp c rfl
  | cons c u => rfl

theorem radixNumber?_append (ht : Stops t) (hd : stops.any isDigit = false)
    (hs : isDigit '_' = false) (base : Nat) (u : List Char) :
    radixNumber? base isDigit (u ++ t) = (radixNumber? base isDigit u).map (before t) := by
  have hle := digitRun_le isDigit (skipUnderscore u)
  simp only [radixNumber?, skipUnderscore_append ht, digitRun_append hd hs ht,
    List.drop_append_of_le_length hle, List.take_append_of_le_length hle,
    any_head?_append ht (p := Char.isDigit) (by decide), mayFollowNumber_append ht]
  split <;> rfl

theorem imaginary?_append (ht : Stops t) (number u : List Char) :
    imaginary? number (u ++ t) = (imaginary? number u).map (Option.map (before t)) := by
  cases u with
  | nil =>
    cases t with
    | nil => rfl
    | cons c t =>
      have := ht.not (p := fun c => c == 'j' || c == 'J') (by decide) c rfl
      simp only [List.nil_append, imaginary?, this]
      rfl
  | cons c u =>
    simp only [List.cons_append, imaginary?, mayFollowNumber_append ht]
    split
    · split
      · cases Decimal.unsignedFloat? number <;> rfl
      · rfl
    · rfl

/-- The mark and the sign of an exponent are seen whatever stands behind. -/
theorem signedMark_append (ht : Stops t) (u : List Char) :
    (((u ++ t).head? == some 'e' || (u ++ t).head? == some 'E')
        && (((u ++ t).drop 1).head? == some '+' || ((u ++ t).drop 1).head? == some '-'))
      = ((u.head? == some 'e' || u.head? == some 'E')
        && ((u.drop 1).head? == some '+' || (u.drop 1).head? == some '-')) := by
  cases u with
  | nil =>
    rw [head?_append_stop ht (by decide), head?_append_stop ht (by decide)]
    rfl
  | cons c u =>
    simp only [List.cons_append, List.drop_succ_cons, List.drop_zero, List.head?_cons,
      head?_append_stop ht (d := '+') (by decide), head?_append_stop ht (d := '-') (by decide)]

theorem decimalNumber?_append (ht : Stops t) (u : List Char) :
    decimalNumber? (u ++ t) = (decimalNumber? u).map (before t) := by
  have hwhole := digitRun_le Char.isDigit u
  have hfraction := drop_le_length hwhole (fractionLength_le (u.drop (digitRun Char.isDigit u)))
  have hexponent := drop_le_length hfraction (exponentLength_le _)
  have hrun : digitRun Char.isDigit (u ++ t) = digitRun Char.isDigit u :=
    digitRun_append (by decide) (by decide) ht u
  simp only [decimalNumber?, hrun, List.drop_append_of_le_length hwhole,
    List.take_append_of_le_length hwhole, fractionLength_append ht,
    List.drop_append_of_le_length hfraction, exponentLength_append ht, signedMark_append ht,
    List.drop_append_of_le_length hexponent, List.take_append_of_le_length hexponent,
    imaginary?_append ht, mayFollowNumber_append ht]
  cases imaginary? (u.take _) (u.drop _) with
  | some r => rfl
  | none =>
    dsimp only [Option.map_none]
    split
    · rfl
    split
    · split <;> rfl
    · cases Decimal.unsignedFloat? _ <;> rfl

/-- A number ends where a stop stands. -/
theorem number?_append (ht : Stops t) (hu : u ≠ []) :
    number? (u ++ t) = (number? u).map (before t) := by
  have hdecimal := decimalNumber?_append ht u
  have hother {s : List Char} (hs : ∀ mark rest, s ≠ '0' :: mark :: rest) :
      number? s = decimalNumber? s := by
    rw [number?]
    exact hs
  have hzero {c d : Char} (hc : c ≠ '0') {s : List Char} :
      number? (c :: d :: s) = decimalNumber? (c :: d :: s) :=
    hother fun _ _ he => hc (List.cons.inj he).1
  match u with
  | [] => exact absurd rfl hu
  | [c] =>
    rw [hother (s := [c]) (by simp), ← hdecimal]
    cases t with
    | nil => exact hother (by simp)
    | cons d t =>
      by_cases hc : c = '0'
      · have hmark : (((d == 'x' || d == 'X') || (d == 'o' || d == 'O'))
            || (d == 'b' || d == 'B')) = false :=
          ht.not (p := fun d => ((d == 'x' || d == 'X') || (d == 'o' || d == 'O'))
            || (d == 'b' || d == 'B')) (by decide) d rfl
        rw [Bool.or_eq_false_iff, Bool.or_eq_false_iff] at hmark
        obtain ⟨⟨hx, ho⟩, hb⟩ := hmark
        subst hc
        simp only [List.singleton_append, number?, hx, ho, hb]
        rfl
      · exact hzero hc
  | c :: d :: u =>
    by_cases hc : c = '0'
    · subst hc
      have hx : radixNumber? 16 (fun c => (Text.hexValue? c).isSome) (u ++ t) = _ :=
        radixNumber?_append ht (by decide) (by decide) 16 u
      have ho : radixNumber? 8 MarkupTemplate.Literal.isOctal (u ++ t) = _ :=
        radixNumber?_append ht (by decide) (by decide) 8 u
      have hb : radixNumber? 2 (fun c => c == '0' || c == '1') (u ++ t) = _ :=
        radixNumber?_append ht (by decide) (by decide) 2 u
      simp only [List.cons_append] at hdecimal ⊢
      simp only [number?, hdecimal, hx, ho, hb]
      split
      · rfl
      split
      · rfl
      split <;> rfl
    · rw [List.cons_append, List.cons_append, hzero hc, hzero hc]
      exact hdecimal

/-! ## Operators -/

/-- An operator has one character, or no stops. -/
theorem operators_stop (o : String) (ho : o ∈ operators) :
    o.toList.any stops.contains = false ∨ ∃ c, o.toList = [c] := by
  have hall : ∀ o ∈ operators, o.toList.any stops.contains = false ∨ o.toList.length = 1 := by
    decide
  exact (hall o ho).imp_right List.length_eq_one_iff.mp

/-- An operator ends where a stop stands. -/
theorem operator?_append (ht : Stops t) (hu : u ≠ []) : operator? (u ++ t) = operator? u := by
  refine List.find?_congr fun o ho => ?_
  obtain hsigns | ⟨b, hbracket⟩ := operators_stop o ho
  · exact isPrefixOf_append_stop ht hsigns u
  · cases u with
    | nil => exact absurd rfl hu
    | cons c u => simp [hbracket, List.isPrefixOf]

theorem afterOperator?_of_signs {sign : String} (hsign : sign ∈ operators)
    (hstop : sign.toList.any stops.contains = false) (st : State) :
    afterOperator? st sign = some st := by
  have hall : ∀ o ∈ operators, o.toList.any stops.contains = false → o ≠ "(" ∧ o ≠ "[" ∧ o ≠ "\x7b"
      ∧ o ≠ ")" ∧ o ≠ "]" ∧ o ≠ "\x7d" := by decide
  obtain ⟨h₁, h₂, h₃, h₄, h₅, h₆⟩ := hall sign hsign hstop
  unfold afterOperator?
  split <;> simp_all

/-- The operator at the front of a run of signs. -/
theorem stepAtSign?_append (ht : Stops t) (hu : ∀ c ∈ u, isSign c = true) (hne : u ≠ [])
    (st : State) : stepAtSign? st (u ++ t)
      = (operator? u).map fun sign => (.op sign, st, u.drop sign.length ++ t) := by
  unfold stepAtSign?
  rw [operator?_append ht hne]
  cases hsign : operator? u with
  | none => rfl
  | some sign =>
    have hfind : operators.find? (fun o => o.toList.isPrefixOf u) = some sign := hsign
    have hopens := List.find?_some hfind
    have hfront : sign.toList <+: u := List.isPrefixOf_iff_prefix.mp hopens
    have hfree : sign.toList.any stops.contains = false := List.any_eq_false.mpr fun c hc hmem =>
      (isSign_iff.mp (hu c (hfront.subset hc))).1 (List.contains_iff_mem.mp hmem)
    have hstate := afterOperator?_of_signs (List.mem_of_find?_eq_some hsign) hfree st
    have hdrop : (u ++ t).drop sign.length = u.drop sign.length ++ t :=
      List.drop_append_of_le_length (String.length_toList ▸ hfront.length_le)
    simp only [Option.bind_eq_bind, Option.bind_some, hstate, hdrop]
    rfl

/-! ## Words -/

/-- The mark of a string literal that a run of signs is. -/
def marked? (u : List Char) : Option (Bool × Bool) :=
  if Text.isIdentifier u then stringMark? u else none

/-- A word at the front of a run of signs that marks no literal. -/
theorem stepAtWord?_append {word v : List Char} (hv : ∀ c ∈ v, isSign c = true)
    (hmark : v = [] → stringMark? word ≠ none → t.head?.filter Piece.isQuote = none) (st : State) :
    stepAtWord? st word (v ++ t) = some (ofWord word, st, v ++ t) := by
  unfold stepAtWord?
  split
  · next q _ _ hq hm =>
    have hquote : Piece.isQuote q = false := by
      cases v with
      | nil =>
        have hnone := hmark rfl (by rw [hm]; simp)
        rw [List.nil_append] at hq
        rw [hq] at hnone
        simpa using hnone
      | cons c v =>
        cases hq
        exact isQuote_of_isSign (hv q List.mem_cons_self)
    rw [← Piece.isQuote, hquote]
    rfl
  · rfl

/-- The lexeme at the front of a run of signs, and the rest of the run. -/
def stepInRun? (u : List Char) : Option (Lexeme × List Char) :=
  match u with
  | [] => none
  | c :: w =>
    if Text.isIdentStart c then
      some (ofWord (c :: w.takeWhile isNamePart), w.dropWhile isNamePart)
    else if c.isDigit || (c == '.' && w.head?.any Char.isDigit) then
      (number? u).map fun (v, r) => (.number v, r)
    else (operator? u).map fun sign => (.op sign, u.drop sign.length)

/-- The step at a run of signs that marks no literal. -/
theorem step?_signs (ht : Stops t) (hu : ∀ c ∈ u, isSign c = true) (hne : u ≠ [])
    (hmark : marked? u ≠ none → t.head?.filter Piece.isQuote = none) (st : State) :
    step? st (u ++ t) = (stepInRun? u).map fun (x, v) => (x, st, v ++ t) := by
  cases u with
  | nil => exact absurd rfl hne
  | cons c w =>
    have hquote : (c == '"' || c == '\x27') = false := isQuote_of_isSign (hu c List.mem_cons_self)
    have hsigns := (List.forall_mem_cons.mp hu).2
    rw [List.cons_append, step?, hquote, if_neg Bool.false_ne_true, stepInRun?,
      any_head?_append ht (by decide)]
    split
    · next hstart =>
      rw [takeWhile_append_stop ht (by decide),
        dropWhile_append_stop ht (by decide)]
      refine stepAtWord?_append (fun d hd => ?_) (fun hv hm => hmark ?_) st
      · exact hsigns d ((List.dropWhile_suffix _).subset hd)
      · -- The word is the whole run.
        have hparts : ∀ d ∈ w, isNamePart d = true := List.dropWhile_eq_nil_iff.mp hv
        have hall : w.all Text.isIdentContinue = true := List.all_eq_true.mpr hparts
        have htake : w.takeWhile isNamePart = w := List.takeWhile_eq_self_iff.mpr hparts
        have hword : Text.isIdentifier (c :: w) = true := by
          simp only [Text.isIdentifier, hstart, hall, Bool.and_self]
        rwa [marked?, if_pos hword, ← htake]
    split
    · rw [← List.cons_append, number?_append ht hne]
      cases number? (c :: w) <;> rfl
    · rw [← List.cons_append, stepAtSign?_append ht hu hne]
      cases operator? (c :: w) <;> rfl

theorem suffix_stepInRun? {x : Lexeme} {v : List Char} (h : stepInRun? u = some (x, v)) :
    v <:+ u := by
  unfold stepInRun? at h
  split at h
  · cases h
  split at h
  · cases h
    exact (List.dropWhile_suffix _).trans (List.suffix_cons _ _)
  split at h
  · next hc =>
    obtain ⟨a, ha, hx⟩ := Option.map_eq_some_iff.mp h
    cases hx
    exact (follows_number? ha hc).suffix
  · obtain ⟨sign, -, hx⟩ := Option.map_eq_some_iff.mp h
    cases hx
    exact List.drop_suffix _ _

theorem length_stepInRun?_lt (hu : ∀ c ∈ u, isSign c = true) (hne : u ≠ []) {x : Lexeme}
    {v : List Char} (h : stepInRun? u = some (x, v)) : v.length < u.length := by
  have hstep := step?_signs .nil hu hne (fun _ => rfl) ⟨[], [], false⟩
  rw [h] at hstep
  have hlt := length_step?_lt hstep
  rwa [List.append_nil, List.append_nil] at hlt

end MarkupTemplate.Host.Lexeme
