import MarkupTemplate.Proofs.Host.Capture
import MarkupTemplate.Proofs.Host.GuardLayout
import MarkupTemplate.Proofs.Host.Lexeme.Layout
import MarkupTemplate.Proofs.Host.Relaid.Newlines

/-!
# Patterns in two layouts

A pattern and its guard are read inside parentheses, where their layout does not count. But the
guard is looked for before, in the text as it stands: there a line outside brackets has to fit the
lines in front of it. So two layouts of a pattern give the same results on all values, unless a line
of one of them does not fit; such a layout matches nothing.

* `Clause.ofParts?_relaid`: the clause of two layouts.
* `Fits`: the text can be searched for a guard.
* `Evaluator.match?_relaid`: a pattern in another layout.
-/
namespace MarkupTemplate

namespace Host

open Text (unifyNewlines unifyNewlines_cons_of_ne unifyNewlines_append)

/-! ## The clause of two layouts -/

namespace Clause

variable {closers : List Char} {indents : List Lexeme.Indent} {s s' y y' : List Char}

theorem unifyNewlines_enclosed (hs : s.getLast? ≠ some '\r') (y : List Char) :
    unifyNewlines (enclosed s ++ y)
      = Bracket.round.opener :: '\n' :: (unifyNewlines s
        ++ '\n' :: Bracket.round.closer :: unifyNewlines y) := by
  have htext : enclosed s ++ y
      = Bracket.round.opener :: '\n' :: (s ++ '\n' :: Bracket.round.closer :: y) := by
    rw [enclosed_eq, List.cons_append, List.cons_append, List.append_assoc]
    rfl
  rw [htext, unifyNewlines_cons_of_ne (by decide), unifyNewlines_cons_of_ne (by decide),
    unifyNewlines_append fun h => absurd h hs, unifyNewlines_cons_of_ne (by decide),
    unifyNewlines_cons_of_ne (by decide)]

/-- Two layouts inside parentheses have the same lexemes, if those behind them do so. -/
theorem lexemesAt_enclosed (h : Relaid [] [] s s')
    (hy : Lexeme.lexemesAt ⟨closers, indents, false⟩ (unifyNewlines y)
      = Lexeme.lexemesAt ⟨closers, indents, false⟩ (unifyNewlines y')) :
    Lexeme.lexemesAt ⟨closers, indents, false⟩ (unifyNewlines (enclosed s ++ y))
      = Lexeme.lexemesAt ⟨closers, indents, false⟩ (unifyNewlines (enclosed s' ++ y')) := by
  have hend : Lexeme.LexedAlike Bracket.round.closer closers indents
      (Bracket.round.closer :: unifyNewlines y) (Bracket.round.closer :: unifyNewlines y')
      [] [] [] := by
    change Lexeme.lexemesAt ⟨Bracket.round.closer :: closers, indents, false⟩ _
      = Lexeme.lexemesAt ⟨Bracket.round.closer :: closers, indents, false⟩ _
    rw [List.nil_append, List.nil_append, Lexeme.lexemesAt_lineFeed, Lexeme.lexemesAt_lineFeed,
      Lexeme.lexemesAt_closer, Lexeme.lexemesAt_closer, hy]
  have hinside := Lexeme.lexedAlike_of_relaid h.unifyNewlines (Text.not_mem_unifyNewlines s)
    (Text.not_mem_unifyNewlines s') hend
  rw [unifyNewlines_enclosed h.getLast?_ne, unifyNewlines_enclosed h.symm.getLast?_ne,
    Lexeme.lexemesAt_opener, Lexeme.lexemesAt_opener, Lexeme.lexemesAt_lineFeed,
    Lexeme.lexemesAt_lineFeed]
  exact congrArg (Option.map _) hinside

/-- The word that opens a guard is a lexeme of its own. -/
theorem lexemesAt_word_if (s : List Char) :
    Lexeme.lexemesAt ⟨closers, indents, false⟩ (" if ".toList ++ s)
      = (Lexeme.lexemesAt ⟨closers, indents, false⟩ s).map (.keyword "if" :: ·) := by
  have hstep := Lexeme.step?_signs (u := ['i', 'f']) (t := ' ' :: s) (.cons (by decide) s)
    (List.all_eq_true.mp (by decide)) (by decide) (fun _ => rfl) ⟨closers, indents, false⟩
  have hword : Lexeme.stepInRun? ['i', 'f'] = some (.keyword "if", []) := by
    have hstart : Text.isIdentStart 'i' = true := by decide
    have hpart : Lexeme.isNamePart 'f' = true := by decide
    have hkeyword : "if" ∈ keywords := by decide
    simp [Lexeme.stepInRun?, Lexeme.ofWord, hstart, hpart, hkeyword]
  rw [hword] at hstep
  change Lexeme.lexemesAt _ (' ' :: (['i', 'f'] ++ ' ' :: s)) = _
  rw [Lexeme.lexemesAt_gap (.inl rfl), Lexeme.lexemesAt_step? (by rfl), hstep]
  exact congrArg (Option.map _) (Lexeme.lexemesAt_gap (.inl rfl) s)

/-- Two guards behind the word that opens them have the same lexemes if they do so themselves. -/
theorem lexemesAt_guard {g g' : List Char} (h : Relaid [] [] g g') :
    Lexeme.lexemesAt ⟨closers, indents, false⟩ (unifyNewlines (" if ".toList ++ enclosed g))
      = Lexeme.lexemesAt ⟨closers, indents, false⟩
        (unifyNewlines (" if ".toList ++ enclosed g')) := by
  have hunify (s : List Char) :
      unifyNewlines (" if ".toList ++ s) = " if ".toList ++ unifyNewlines s := by
    rw [unifyNewlines_append fun h => absurd h (by decide)]
    rfl
  have hsame : Lexeme.lexemesAt ⟨closers, indents, false⟩ (unifyNewlines (enclosed g ++ []))
      = Lexeme.lexemesAt ⟨closers, indents, false⟩ (unifyNewlines (enclosed g' ++ [])) :=
    lexemesAt_enclosed h rfl
  rw [List.append_nil, List.append_nil] at hsame
  rw [hunify, hunify, lexemesAt_word_if, lexemesAt_word_if, hsame]

theorem ofText?_enclosed_append (h : Relaid [] [] s s')
    (hy : ∀ indents, Lexeme.lexemesAt ⟨[], indents, false⟩ (unifyNewlines y)
      = Lexeme.lexemesAt ⟨[], indents, false⟩ (unifyNewlines y')) :
    Lexeme.ofText? (enclosed s ++ y) = Lexeme.ofText? (enclosed s' ++ y') := by
  have hsame := lexemesAt_enclosed h (hy [⟨0, 0⟩])
  rw [unifyNewlines_enclosed h.getLast?_ne, unifyNewlines_enclosed h.symm.getLast?_ne] at hsame
  rw [Lexeme.ofText?_eq, Lexeme.ofText?_eq, unifyNewlines_enclosed h.getLast?_ne,
    unifyNewlines_enclosed h.symm.getLast?_ne, Lexeme.lexemesAt_start, Lexeme.lexemesAt_start,
    hsame]

/-- Without a guard, two layouts of a pattern are one clause. -/
theorem ofParts?_relaid (h : Relaid [] [] s s') : ofParts? s none = ofParts? s' none := by
  have hsame : Lexeme.ofText? (enclosed s ++ []) = Lexeme.ofText? (enclosed s' ++ []) :=
    ofText?_enclosed_append h fun _ => rfl
  unfold ofParts?
  dsimp only
  rw [hsame]

/-- With a guard they are so, too. -/
theorem ofParts?_guard_relaid {g g' : List Char} (h : Relaid [] [] s s') (hg : Relaid [] [] g g') :
    ofParts? s (some g) = ofParts? s' (some g') := by
  unfold ofParts?
  dsimp only
  rw [ofText?_enclosed_append h fun _ => lexemesAt_guard hg]

end Clause

/-! ## A pattern in another layout -/

/-- Every line of a text in front of its guard that stands outside brackets fits the lines in front
of it, so that the guard can be found. -/
def Fits (text : List Char) : Prop := splitGuard text ≠ .error ⟨.malformed, none⟩

/-- In two layouts that fit, a pattern is read alike. -/
theorem matching_relaid {self : Interp} {p p' : String} (h : Relaid [] [] p.toList p'.toList)
    (hbare : Bare p.toList) (hbare' : Bare p'.toList) (hfits : Fits p.toList)
    (hfits' : Fits p'.toList) (v : Value) (names : Bindings) :
    matching self p v names = matching self p' v names := by
  have hnull : p.toList.contains '\x00' = p'.toList.contains '\x00' := by
    rw [Bool.eq_iff_iff, List.contains_iff_mem, List.contains_iff_mem, h.mem_iff (by decide)]
  obtain hl | hr | ⟨hl, hr⟩ | ⟨a, b, a', b', hl, hr, ha, hb⟩ := splitGuard_relaid h hbare hbare'
  · exact absurd hl hfits
  · exact absurd hr hfits'
  · unfold matching reading
    rw [hl, hr]
    dsimp only
    rw [hnull, Clause.ofParts?_relaid h]
  · unfold matching reading
    rw [hl, hr]
    dsimp only
    rw [hnull, Clause.ofParts?_guard_relaid ha hb]

end Host

namespace Evaluator

open Host

variable {ev : Evaluator} {self : Interp} {limit : Nat} {p p' : String}

/-- What is left of a text without the blanks at its ends starts with no blank. -/
theorem bare_trimmed (p : String) : Bare (trimmed p).toList := by
  have hfront : Text.trim p.toList <+: Text.trimLeft p.toList := by
    have := List.dropWhile_suffix Text.isBlank (l := (Text.trimLeft p.toList).reverse)
    simpa [Text.trim, Text.trimRight] using this.reverse
  intro c hc
  rw [trimmed, String.toList_ofList] at hc
  have hhead := head?_eq_of_front hfront c hc
  have hnot := List.head?_dropWhile_not Text.isBlank p.toList
  rw [← Text.trimLeft, hhead] at hnot
  simpa using hnot

theorem not_isBlank_of_isIdentContinue {c : Char} (h : Text.isIdentContinue c = true) :
    Text.isBlank c = false := by
  rw [← Bool.not_eq_true]
  intro hb
  have hletter : Text.inRanges Text.letterRanges c = false :=
    Text.inRanges_disjoint (by decide) hb
  have hstart : Text.inRanges Text.otherStartRanges c = false :=
    Text.inRanges_disjoint (by decide) hb
  have hdigit : Text.inRanges Text.decimalRanges c = false :=
    Text.inRanges_disjoint (by decide) hb
  have hother : Text.inRanges Text.otherContinueRanges c = false :=
    Text.inRanges_disjoint (by decide) hb
  have hscore : c ≠ '_' := by rintro rfl; exact absurd hb (by decide)
  simp [Text.isIdentContinue, Text.isIdentStart, Text.isLetter, Text.isDecimal, hletter, hstart,
    hdigit, hother, hscore] at h

/-- A name alone has one layout only. -/
theorem eq_of_name (h : Relaid [] [] (trimmed p).toList (trimmed p').toList)
    (hp : trimmed p = "_" ∨ isCapture (trimmed p) = true) : trimmed p = trimmed p' := by
  have hname : Text.isIdentifier (trimmed p).toList = true := by
    obtain hp | hp := hp
    · rw [hp]
      decide
    · simp only [isCapture, Bool.and_eq_true] at hp
      exact hp.1.1
  refine String.toList_injective (h.eq_of_not_blank fun c hc => ?_)
  exact not_isBlank_of_isIdentContinue (Text.isIdentContinue_of_mem hname hc)

/-- A pattern that is no name alone is matched by the general rules. -/
theorem match?_of_not_name (hp : ¬ (trimmed p = "_" ∨ isCapture (trimmed p) = true)) (v : Value)
    (scope : Bindings) : ev.match? p v scope = ev.matchInFull (trimmed p) v scope := by
  obtain ⟨hwild, hcapture⟩ := not_or.mp hp
  rw [match?, if_neg hwild, if_neg hcapture]

/-- In two layouts a pattern gives the same results on all values, unless a line of one of them does
not fit: with such a line a pattern fails on all values. -/
theorem match?_relaid (hlang : ev.language = languageOf self limit)
    (h : Relaid [] [] (trimmed p).toList (trimmed p').toList) (hfits : Fits (trimmed p).toList)
    (v : Value) (scope : Bindings) :
    (Fits (trimmed p').toList → ev.match? p' v scope = ev.match? p v scope)
      ∧ (¬ Fits (trimmed p').toList → ev.match? p' v scope
        = Action.fail (.during .matching (trimmed p') (.host ⟨.malformed, none⟩))) := by
  by_cases hname : (trimmed p = "_" ∨ isCapture (trimmed p) = true)
    ∨ (trimmed p' = "_" ∨ isCapture (trimmed p') = true)
  · have hsame : trimmed p = trimmed p' :=
      hname.elim (eq_of_name h) fun hp' => (eq_of_name h.symm hp').symm
    refine ⟨fun _ => ?_, fun hnot => absurd (hsame ▸ hfits) hnot⟩
    rw [match?, match?, hsame]
  · obtain ⟨hp, hp'⟩ := not_or.mp hname
    have hwrapped : Failure.wrapped .matching (trimmed p)
        = Failure.wrapped .matching (trimmed p') := by
      funext e
      cases e with
      | template e => rfl
      | host e =>
        rw [Failure.wrapped, Failure.wrapped, Failure.during, Failure.during, h.squeeze_eq]
    have hmatching : ev.language.matching = matching self := by
      rw [hlang]
      rfl
    rw [match?_of_not_name hp, match?_of_not_name hp', matchInFull, matchInFull, hmatching]
    refine ⟨fun hfits' => ?_, fun hnot => ?_⟩
    · rw [hwrapped, matching_relaid h (bare_trimmed p) (bare_trimmed p') hfits hfits']
    · rw [matching, Decidable.not_not.mp hnot]
      rfl

/-- Alternatives each on a line of its own, and the guard as well. -/
theorem match?_relaid_lines :
    let ev : Evaluator := ⟨Host.language 4, []⟩
    Relaid [] [] (trimmed "1 | _ if 1").toList (trimmed "1\n  | _\n  if 1").toList
      ∧ Fits (trimmed "1 | _ if 1").toList ∧ Fits (trimmed "1\n  | _\n  if 1").toList
      ∧ ((ev.match? "1\n  | _\n  if 1" (.int 5) [] .empty).outcome matches .ok (some []))
        = true := by
  intro ev
  have hp : trimmed "1 | _ if 1" = "1 | _ if 1" := by decide +kernel
  have hp' : trimmed "1\n  | _\n  if 1" = "1\n  | _\n  if 1" := by decide +kernel
  have space : Gap [' '] := .blank rfl .nil
  have line : Gap ['\n', ' ', ' '] := .lineFeed (.blank rfl (.blank rfl .nil))
  have h : Relaid [] [] "1 | _ if 1".toList "1\n  | _\n  if 1".toList := by
    refine .sign (c := '1') rfl ?_
    refine .gapSign (c := '|') space line (by decide) (by decide) rfl ?_
    refine .gapSign (c := '_') space space (by decide) (by decide) rfl ?_
    refine .gapSign (c := 'i') space line (by decide) (by decide) rfl (.sign (c := 'f') rfl ?_)
    exact .gapSign (c := '1') space space (by decide) (by decide) rfl (.nil [])
  have hsplit : splitGuard "1 | _ if 1".toList = .ok ("1 | _ ".toList, some " 1".toList) := by rfl
  have hsplit' : splitGuard "1\n  | _\n  if 1".toList
      = .ok ("1\n  | _\n  ".toList, some " 1".toList) := by rfl
  have hfits : Fits (trimmed "1 | _ if 1").toList := by
    rw [hp, Fits, hsplit]
    exact nofun
  have hfits' : Fits (trimmed "1\n  | _\n  if 1").toList := by
    rw [hp', Fits, hsplit']
    exact nofun
  rw [← hp, ← hp'] at h
  refine ⟨h, hfits, hfits', ?_⟩
  rw [(match?_relaid rfl h hfits (.int 5) []).1 hfits']
  decide +kernel

/-- Where the lines outside brackets do not fit one another, the layout counts. -/
theorem not_relaid_alike :
    let ev : Evaluator := ⟨Host.language 4, []⟩
    Relaid [] [] (trimmed "1 | 2 | 3").toList (trimmed "1\n    | 2\n  | 3").toList
      ∧ ((ev.match? "1 | 2 | 3" (.int 1) [] .empty).outcome matches .ok (some [])) = true
      ∧ ((ev.match? "1\n    | 2\n  | 3" (.int 1) [] .empty).outcome matches .error _) = true := by
  intro ev
  have hp : trimmed "1 | 2 | 3" = "1 | 2 | 3" := by decide +kernel
  have hp' : trimmed "1\n    | 2\n  | 3" = "1\n    | 2\n  | 3" := by decide +kernel
  have space : Gap [' '] := .blank rfl .nil
  have line : Gap ['\n', ' ', ' '] := .lineFeed (.blank rfl (.blank rfl .nil))
  have far : Gap ['\n', ' ', ' ', ' ', ' '] :=
    .lineFeed (.blank rfl (.blank rfl (.blank rfl (.blank rfl .nil))))
  refine ⟨?_, by decide +kernel, by decide +kernel⟩
  rw [hp, hp']
  refine .sign (c := '1') rfl ?_
  refine .gapSign (c := '|') space far (by decide) (by decide) rfl ?_
  refine .gapSign (c := '2') space space (by decide) (by decide) rfl ?_
  refine .gapSign (c := '|') space line (by decide) (by decide) rfl ?_
  exact .gapSign (c := '3') space space (by decide) (by decide) rfl (.nil [])

end Evaluator

end MarkupTemplate
