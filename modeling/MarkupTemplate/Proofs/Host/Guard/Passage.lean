import Mathlib.Data.List.TakeWhile
import MarkupTemplate.Proofs.Host.Guard
import MarkupTemplate.Proofs.Host.Piece.Literal

/-!
# What stands in front of a guard

Up to the word that opens a guard the pieces of a text are passed one after another. Gaps and string
literals may be several pieces each; all of them are passed, unless a line starts in a gap outside
brackets whose indentation does not fit the lines in front of it.

* `guardAt`: where the guard is found from a place on.
* `guardAt_step`, `guardAt_pass`: the next piece.
* `guardAt_gap`: a gap is passed, or a line in it does not fit.
* `guardAt_literal`: a string literal is passed.
-/
namespace MarkupTemplate.Host

open Piece (Mode State cutAt stepAt stepAtLine stepInLine)

/-! ## From a place on -/

/-- The text from a place on up to the word that opens the guard, if there is one; or how the
cutting ends before. -/
def guardAt (mode : Mode) (st : State) (s : List Char) : Except Ending (Option (List Char)) :=
  match front? st.depth (cutAt mode st s).1, (cutAt mode st s).2 with
  | some a, _ => .ok (some a)
  | none, .complete => .ok none
  | none, ending => .error ending

/-- The same with a further text in front. -/
def prepend (w : List Char) (r : Except Ending (Option (List Char))) :
    Except Ending (Option (List Char)) :=
  r.map (Option.map (w ++ ·))

theorem prepend_nil (r : Except Ending (Option (List Char))) : prepend [] r = r := by
  rcases r with e | _ | a <;> rfl

theorem prepend_prepend (v w : List Char) (r : Except Ending (Option (List Char))) :
    prepend v (prepend w r) = prepend (v ++ w) r := by
  rcases r with e | _ | a
  · rfl
  · rfl
  · exact congrArg (fun x => Except.ok (some x)) (List.append_assoc v w a).symm

theorem splitGuard_eq_guardAt (text : List Char) : splitGuard text =
    match guardAt .lineStart ⟨0, false, [0]⟩ text with
    | .ok (some a) => .ok (a, some (text.drop (a.length + 2)))
    | .ok none => .ok (text, none)
    | .error .misindented => .error ⟨.malformed, none⟩
    | .error _ => .error ⟨.unbalanced, none⟩ := by
  rw [splitGuard_eq, guardAt, ← Piece.cut_eq]
  cases front? 0 (Piece.cut text).1 with
  | some a => rfl
  | none => cases (Piece.cut text).2 <;> rfl

section

variable {mode mode' : Mode} {st st' : State} {s : List Char} {kind : PieceKind} {n : Nat}

theorem guardAt_stop {ending : Ending} (h : stepAt mode st s = .stop ending) :
    guardAt mode st s = if ending = .complete then .ok none else .error ending := by
  rw [guardAt, Piece.cutAt_eq, h]
  cases ending <;> rfl

/-- The next piece opens the guard, or stands in front of it. -/
theorem guardAt_step {a : List Char} (h : stepAt mode st (a ++ s) = .piece kind a.length mode' st')
    (hdepth : (⟨kind, a⟩ : Piece).depthAfter st.depth = st'.depth) :
    guardAt mode st (a ++ s) = if (⟨kind, a⟩ : Piece) = guardWord ∧ st.depth = 0 then .ok (some [])
      else prepend a (guardAt mode' st' s) := by
  rw [guardAt, Piece.cutAt_eq, h, Piece.behind, List.take_left, List.drop_left]
  dsimp only
  rw [front?, hdepth]
  by_cases hw : (⟨kind, a⟩ : Piece) = guardWord ∧ st.depth = 0
  · rw [if_pos hw, if_pos hw]
  · rw [if_neg hw, if_neg hw, guardAt]
    cases front? st'.depth (cutAt mode' st' s).1 with
    | some b => rfl
    | none => cases (cutAt mode' st' s).2 <;> rfl

/-- A piece that is no name stands in front of the guard. -/
theorem guardAt_pass {a : List Char} (h : stepAt mode st (a ++ s) = .piece kind a.length mode' st')
    (hdepth : (⟨kind, a⟩ : Piece).depthAfter st.depth = st'.depth) (hkind : kind ≠ .name) :
    guardAt mode st (a ++ s) = prepend a (guardAt mode' st' s) := by
  rw [guardAt_step h hdepth, if_neg]
  rintro ⟨hw, -⟩
  exact hkind (congrArg Piece.kind hw)

theorem stepAt_inLine (st : State) (hs : s ≠ []) : stepAt .inLine st s = stepInLine st s := by
  cases s with
  | nil => exact absurd rfl hs
  | cons c s => rfl

end

/-! ## Gaps -/

/-- The step at the start of a line outside brackets. -/
theorem stepAtLine_gaps {st : State} {b : List Char} {c : Char} (rest : List Char)
    (hdepth : st.depth = 0) (hjoined : st.joined = false)
    (hb : ∀ c ∈ b, Piece.isGap c = true) (hc : Piece.isGap c = false) :
    stepAtLine st (b ++ c :: rest) =
      if c == '#' || c == '\r' || c == '\n' then
        .piece (if c == '#' then .comment else .other)
          (b.length + Piece.rowLength (c :: rest)) .lineStart st
      else match Piece.indentsAt? (Piece.column b) st.indents with
        | some indents => .piece .other b.length .inLine { st with indents := indents }
        | none => .stop .misindented := by
  have htake : (b ++ c :: rest).takeWhile Piece.isGap = b := by
    rw [List.takeWhile_append_of_pos hb, List.takeWhile_cons_of_neg (by simp [hc]),
      List.append_nil]
  unfold stepAtLine
  dsimp only
  rw [htake, List.drop_left]
  exact if_pos (by simp [hdepth, hjoined])

/-- The step at the start of the last line. -/
theorem stepAtLine_gaps_end {st : State} {b : List Char} (hdepth : st.depth = 0)
    (hjoined : st.joined = false) (hb : ∀ c ∈ b, Piece.isGap c = true) (hne : b ≠ []) :
    stepAtLine st b = .piece .other b.length .inLine st := by
  have htake : b.takeWhile Piece.isGap = b := List.takeWhile_eq_self_iff.mpr hb
  unfold stepAtLine
  dsimp only
  rw [htake, List.drop_length, if_pos (by simp [hdepth, hjoined])]
  simp [hne]

/-- The blanks at the front of a gap, and the end of their line if there is one. -/
theorem Gap.cut {g : List Char} (h : Gap g) : ∃ b, (∀ c ∈ b, Piece.isGap c = true)
    ∧ (g = b ∨ ∃ g', Gap g' ∧ (g = b ++ '\n' :: g' ∨ g = b ++ '\r' :: '\n' :: g')) := by
  induction h with
  | nil => exact ⟨[], by simp, .inl rfl⟩
  | @blank c g hc _ ih =>
    obtain ⟨b, hb, h⟩ := ih
    refine ⟨c :: b, List.forall_mem_cons.mpr ⟨hc, hb⟩, ?_⟩
    obtain rfl | ⟨g', hg', rfl | rfl⟩ := h
    · exact .inl rfl
    · exact .inr ⟨g', hg', .inl rfl⟩
    · exact .inr ⟨g', hg', .inr rfl⟩
  | @lineFeed g hg _ => exact ⟨[], by simp, .inr ⟨g, hg, .inl rfl⟩⟩
  | @newline g hg _ => exact ⟨[], by simp, .inr ⟨g, hg, .inr rfl⟩⟩

theorem guardAt_nil (st : State) : guardAt .lineStart st [] = guardAt .inLine st [] := by
  rw [guardAt, guardAt, Piece.cutAt_eq, Piece.cutAt_eq]
  rfl

/-- Either a line does not fit, or the rest is reached behind a text. -/
def Passes (st : State) (w s : List Char) (r : Except Ending (Option (List Char))) : Prop :=
  r = .error .misindented
    ∨ ∃ indents, r = prepend w (guardAt .inLine { st with indents := indents } s)

/-- A piece of a gap is passed. -/
theorem Passes.step {mode mode' : Mode} {st : State} {a g s : List Char}
    (h : stepAt mode st (a ++ (g ++ s)) = .piece .other a.length mode' st)
    (hrest : Passes st g s (guardAt mode' st (g ++ s))) :
    Passes st (a ++ g) s (guardAt mode st (a ++ g ++ s)) := by
  rw [List.append_assoc, guardAt_pass h rfl (by decide)]
  obtain hr | ⟨indents, hr⟩ := hrest
  · rw [hr]
    exact .inl rfl
  · rw [hr, prepend_prepend]
    exact .inr ⟨indents, rfl⟩

/-- Where a line starts behind the blanks of a gap, it fits or does not. -/
theorem passes_line {st : State} {b s : List Char} (hdepth : st.depth = 0)
    (hjoined : st.joined = false) (hb : ∀ c ∈ b, Piece.isGap c = true) (hs : Bare s)
    (hcomment : s.head? ≠ some '#') : Passes st b s (guardAt .lineStart st (b ++ s)) := by
  cases s with
  | nil =>
    refine .inr ⟨st.indents, ?_⟩
    cases b with
    | nil => rw [List.append_nil, guardAt_nil, prepend_nil]
    | cons c b =>
      have hstep : stepAt .lineStart st ((c :: b) ++ [])
          = .piece .other (c :: b).length .inLine st := by
        rw [List.append_nil]
        exact stepAtLine_gaps_end hdepth hjoined hb (List.cons_ne_nil c b)
      exact guardAt_pass hstep rfl (by decide)
  | cons c rest =>
    have hblank := hs c rfl
    have hne {d : Char} (hd : Text.isBlank d = true) : c ≠ d := by
      rintro rfl
      rw [hd] at hblank
      cases hblank
    have hgap : Piece.isGap c = false := by
      simp [Piece.isGap, hne (d := ' ') (by decide), hne (d := '\t') (by decide),
        hne (d := '\x0c') (by decide)]
    have hsharp : c ≠ '#' := fun he => hcomment (congrArg some he)
    have hline : stepAt .lineStart st (b ++ c :: rest) = _ :=
      stepAtLine_gaps rest hdepth hjoined hb hgap
    rw [if_neg (by simp [hsharp, hne (d := '\r') (by decide), hne (d := '\n') (by decide)])]
      at hline
    cases hindents : Piece.indentsAt? (Piece.column b) st.indents with
    | none =>
      rw [hindents] at hline
      exact .inl (guardAt_stop hline)
    | some indents =>
      rw [hindents] at hline
      exact .inr ⟨indents, guardAt_pass hline rfl (by decide)⟩

/-- In a line, a gap is passed if what is left of it is. -/
theorem passes_inLine {st : State} {g s : List Char} (hg : Gap g)
    (hshorter : ∀ (mode : Mode) (g' : List Char), mode = .inLine ∨ mode = .lineStart → Gap g' →
      g'.length < g.length → Passes st g' s (guardAt mode st (g' ++ s))) :
    Passes st g s (guardAt .inLine st (g ++ s)) := by
  cases hg with
  | nil => exact .inr ⟨st.indents, (prepend_nil _).symm⟩
  | @blank c g hc hg =>
    have hstep : stepAt .inLine st ([c] ++ (g ++ s)) = .piece .other [c].length .inLine st := by
      simp only [Piece.isGap, Bool.or_eq_true, beq_iff_eq] at hc
      obtain (rfl | rfl) | rfl := hc <;> rfl
    exact .step hstep (hshorter .inLine g (.inl rfl) hg (Nat.lt_succ_self _))
  | @lineFeed g hg =>
    have hstep : stepAt .inLine st (['\n'] ++ (g ++ s)) = .piece .other 1 .lineStart st := rfl
    exact .step hstep (hshorter .lineStart g (.inr rfl) hg (Nat.lt_succ_self _))
  | @newline g hg =>
    have hstep : stepAt .inLine st (['\r', '\n'] ++ (g ++ s)) = .piece .other 2 .lineStart st := rfl
    exact .step hstep
      (hshorter .lineStart g (.inr rfl) hg (Nat.lt_succ_of_lt (Nat.lt_succ_self _)))

/-- A blank line is passed as one piece. -/
theorem stepAt_blankLine {st : State} {b a : List Char} (hdepth : st.depth = 0)
    (hjoined : st.joined = false) (hb : ∀ c ∈ b, Piece.isGap c = true)
    (ha : a = ['\n'] ∨ a = ['\r', '\n']) (rest : List Char) :
    stepAt .lineStart st (b ++ a ++ rest) = .piece .other (b ++ a).length .lineStart st := by
  obtain rfl | rfl := ha
  · have hline := stepAtLine_gaps (c := '\n') rest hdepth hjoined hb (by decide)
    simpa [Piece.rowLength, stepAt] using hline
  · have hline := stepAtLine_gaps (c := '\r') ('\n' :: rest) hdepth hjoined hb (by decide)
    simpa [Piece.rowLength, stepAt] using hline

/-- A gap is passed, unless a line that starts in it does not fit. -/
theorem guardAt_gap {g s : List Char} (hg : Gap g) (hs : Bare s) (hcomment : s.head? ≠ some '#')
    {mode : Mode} (hmode : mode = .inLine ∨ mode = .lineStart) {st : State}
    (hjoined : st.joined = false) : Passes st g s (guardAt mode st (g ++ s)) := by
  induction hlen : g.length using Nat.strongRecOn generalizing g mode with
  | ind n ih =>
    subst hlen
    have hshorter : ∀ (mode : Mode) (g' : List Char), mode = .inLine ∨ mode = .lineStart → Gap g' →
        g'.length < g.length → Passes st g' s (guardAt mode st (g' ++ s)) :=
      fun mode g' hmode hg' hlt => ih _ hlt hg' hmode rfl
    have hline : Passes st g s (guardAt .inLine st (g ++ s)) := passes_inLine hg hshorter
    obtain rfl | rfl := hmode
    · exact hline
    by_cases hdepth : st.depth = 0
    · obtain ⟨b, hb, rfl | ⟨g', hg', hcut⟩⟩ := hg.cut
      · exact passes_line hdepth hjoined hb hs hcomment
      · obtain ⟨a, ha, rfl⟩ : ∃ a, (a = ['\n'] ∨ a = ['\r', '\n']) ∧ g = (b ++ a) ++ g' := by
          obtain rfl | rfl := hcut
          · exact ⟨['\n'], .inl rfl, by simp⟩
          · exact ⟨['\r', '\n'], .inr rfl, by simp⟩
        have hpos : 0 < a.length := by obtain rfl | rfl := ha <;> decide
        refine .step (stepAt_blankLine hdepth hjoined hb ha (g' ++ s))
          (hshorter .lineStart g' (.inr rfl) hg' ?_)
        rw [List.length_append, List.length_append]
        omega
    · -- Inside brackets the start of a line is passed without a look at its blanks.
      cases hgs : g ++ s with
      | nil =>
        rw [hgs] at hline
        rwa [guardAt_nil]
      | cons c rest =>
        rw [hgs] at hline
        have hstep : stepAt .lineStart st ([] ++ c :: rest) = .piece .other 0 .inLine st := by
          obtain ⟨depth, joined, indents⟩ := st
          cases hjoined
          simp [stepAt, stepAtLine, hdepth]
        have hrest := guardAt_pass hstep rfl (by decide)
        rw [List.nil_append, prepend_nil] at hrest
        rwa [hrest]

/-! ## Literals -/

section

variable {q : Char} {body s : List Char}

/-- The rest of a string literal whose line is joined to the one in front of it. -/
theorem guardAt_inString (hq : Piece.isQuote q = true) (hbody : Body q false body) (st : State)
    (s : List Char) : guardAt (.inString q) st (body ++ q :: s)
      = prepend (body ++ [q]) (guardAt .inLine st s) := by
  induction hlen : body.length using Nat.strongRecOn generalizing body with
  | ind n ih =>
    obtain h | ⟨b₁, b₂, rfl, hne, hb₂, h⟩ := Piece.lineEnd_body hq hbody 0 s
    · have hstep : stepAt (.inString q) st ((body ++ [q]) ++ s)
          = .piece .literal (body ++ [q]).length .inLine st := by
        rw [List.append_assoc]
        show Piece.stepInString q st (body ++ q :: s) = _
        rw [Piece.stepInString, h, List.length_append, Nat.zero_add]
        rfl
      have hrest := guardAt_pass hstep rfl (by decide)
      rwa [List.append_assoc] at hrest
    · have hpos := List.length_pos_iff.mpr hne
      have hstep : stepAt (.inString q) st (b₁ ++ (b₂ ++ q :: s))
          = .piece .literal b₁.length (.inString q) st := by
        rw [← List.append_assoc]
        show Piece.stepInString q st (b₁ ++ b₂ ++ q :: s) = _
        rw [Piece.stepInString, h, Nat.zero_add]
      have hlt : b₂.length < n := by
        rw [← hlen, List.length_append]
        omega
      rw [List.append_assoc, guardAt_pass hstep rfl (by decide), ih _ hlt hb₂ rfl, prepend_prepend,
        ← List.append_assoc]

/-- A string literal is passed, with the letters that mark it. -/
theorem guardAt_literal {u : List Char} (hq : Piece.isQuote q = true)
    (hu : ∀ c ∈ u, isSign c = true) (hmarks : u = [] ∨ Piece.marks u = true) {long : Bool}
    (hbody : Body q long body) (hs : long = false → body = [] → s.head? ≠ some q) (st : State) :
    guardAt .inLine st (u ++ (literalOf q long body ++ s))
      = prepend (u ++ literalOf q long body) (guardAt .inLine st s) := by
  have hstep : stepAt .inLine st (u ++ (literalOf q long body ++ s))
      = Piece.stepAtLiteral st u.length q (literalOf q long body ++ s) := by
    have hhead := head?_literalOf q long body s
    rw [stepAt_inLine, Piece.stepInLine_quote hq hu hmarks st hhead]
    intro h
    rw [(List.append_eq_nil_iff.mp h).2] at hhead
    cases hhead
  obtain h | ⟨b₁, b₂, rfl, rfl, hb₂, h⟩ := Piece.stepAtLiteral_body hq hbody hs st u.length
  · rw [← List.append_assoc] at hstep ⊢
    rw [h, ← List.length_append] at hstep
    exact guardAt_pass hstep rfl (by decide)
  · have htext : u ++ (literalOf q false (b₁ ++ b₂) ++ s)
        = (u ++ q :: b₁) ++ (b₂ ++ q :: s) := by
      simp [literalOf, quotesOf]
    rw [h, htext, ← List.length_append] at hstep
    rw [htext, guardAt_pass hstep rfl (by decide), guardAt_inString hq hb₂, prepend_prepend]
    simp [literalOf, quotesOf]

end

end MarkupTemplate.Host
