import Mathlib.Data.List.Induction
import MarkupTemplate.Host.Layout
import MarkupTemplate.Proofs.Text.Lines

/-!
# Closures moved sideways

A closure keeps its statements when the template around it is indented further: spaces and tabs put
behind every line end of the closure, in front of blank lines too, do not change its normal layout.

The lines of the moved text are the lines of the text, all but the first one with the same margin in
front; a line of the margin alone may follow when the text ends in a line end. The margin that the
lines share grows by as much, and lines that are blank stay so.

* `moved`: a text with a margin put behind every line end.
* `splitLines_moved`: its lines.
* `dedent_map_append`: a margin in front of all lines is taken away again.
* `normalize_moved`: the normal layout does not change.
-/
namespace MarkupTemplate.Host.Layout

open MarkupTemplate.Text

/-- A text with a margin put behind every line end. -/
def moved (w : List Char) : List Char → List Char
  | [] => []
  | '\r' :: '\n' :: rest => '\r' :: '\n' :: (w ++ moved w rest)
  | c :: rest => if isLineEnd c then c :: (w ++ moved w rest) else c :: moved w rest

theorem moved_nil (w : List Char) : moved w [] = [] := rfl

theorem moved_pair (w rest : List Char) :
    moved w ('\r' :: '\n' :: rest) = '\r' :: '\n' :: (w ++ moved w rest) := rfl

theorem moved_cons (w : List Char) {c : Char} {rest : List Char}
    (h : ∀ tail, c = '\r' → rest = '\n' :: tail → False) :
    moved w (c :: rest)
      = if isLineEnd c then c :: (w ++ moved w rest) else c :: moved w rest := by
  rw [moved.eq_def w (c :: rest)]
  split
  · next hnil => exact absurd hnil (List.cons_ne_nil _ _)
  · next tail hpair =>
    obtain ⟨hc, hrest⟩ := List.cons.inj hpair
    exact (h tail hc hrest).elim
  · next hcons =>
    obtain ⟨rfl, rfl⟩ := List.cons.inj hcons
    rfl

/-- Lines of which all but the first have a margin in front. -/
def movedLines (w : List Char) : List (List Char) → List (List Char)
  | [] => []
  | first :: others => first :: others.map (w ++ ·)

section Margin

variable {w : List Char}

theorem isBlank_of_isIndent {c : Char} (h : isIndent c = true) : isBlank c = true := by
  simp only [isIndent, Bool.or_eq_true, beq_iff_eq] at h
  rcases h with rfl | rfl <;> decide

theorem not_isLineEnd_of_isIndent {c : Char} (h : isIndent c = true) : isLineEnd c = false := by
  simp only [isIndent, Bool.or_eq_true, beq_iff_eq] at h
  rcases h with rfl | rfl <;> decide

/-- A margin is blank. -/
theorem isAllBlank_margin (hw : w.all isIndent = true) : isAllBlank w = true :=
  List.all_eq_true.mpr fun c hc => isBlank_of_isIndent (List.all_eq_true.mp hw c hc)

theorem isAllBlank_append (hw : w.all isIndent = true) (l : List Char) :
    isAllBlank (w ++ l) = isAllBlank l := by
  rw [isAllBlank, List.all_append]
  exact (congrArg (· && l.all isBlank) (isAllBlank_margin hw)).trans (Bool.true_and _)

/-! ## Lines of the moved text -/

/-- A line feed never comes to stand behind a margin, unless it stood there before. -/
theorem head?_moved_ne (hw : w.all isIndent = true) {s : List Char} (h : s.head? ≠ some '\n') :
    (w ++ moved w s).head? ≠ some '\n' := by
  cases w with
  | cons c w =>
    intro hc
    obtain rfl : c = '\n' := Option.some.inj hc
    exact absurd (List.all_eq_true.mp hw '\n' List.mem_cons_self) (by decide)
  | nil =>
    rw [List.nil_append]
    fun_cases moved [] s with
    | case1 => exact h
    | case2 rest => exact fun hc => nomatch hc
    | case3 c rest => exact h
    | case4 c rest => exact h

/-- A margin ends no line. -/
theorem splitLinesFrom_margin (hw : w.all isIndent = true) (line s : List Char) :
    splitLinesFrom line (w ++ s) = splitLinesFrom (w.reverse ++ line) s := by
  induction w generalizing line with
  | nil => rfl
  | cons c w ih =>
    rw [List.all_cons, Bool.and_eq_true] at hw
    have hc := not_isLineEnd_of_isIndent hw.1
    have hr : ∀ rest, c = '\r' → w ++ s = '\n' :: rest → False := by
      rintro _ rfl
      exact absurd hc (by decide)
    rw [List.cons_append, splitLinesFrom_cons _ hr, if_neg (by simp [hc]), ih hw.2]
    simp

/-- A margin put behind a line end stands in front of the next line. -/
theorem splitLines_margin (hw : w.all isIndent = true) (s : List Char) :
    splitLinesFrom [] (w ++ s)
      = match splitLines s with
        | [] => if w.isEmpty then [] else [w]
        | first :: others => (w ++ first) :: others := by
  rw [splitLinesFrom_margin hw, List.append_nil]
  exact splitLinesFrom_append w [] s

/-- What the lines of a moved text are: those of the text, moved, and perhaps the margin alone. -/
def IsMoved (w : List Char) (lines moved : List (List Char)) : Prop :=
  moved = movedLines w lines ∨ moved = movedLines w lines ++ [w]

/-- Behind a line end, all lines of the moved text have the margin in front. -/
theorem isMoved_behind (hw : w.all isIndent = true) {s : List Char} (line : List Char)
    (h : IsMoved w (splitLinesFrom [] s) (splitLinesFrom [] (moved w s))) :
    IsMoved w (line :: splitLinesFrom [] s) (line :: splitLinesFrom [] (w ++ moved w s)) := by
  rw [splitLines_margin hw, splitLines]
  by_cases hs : s = []
  · subst hs
    cases w with
    | nil => exact .inl rfl
    | cons c w => exact .inr rfl
  · cases hl : splitLinesFrom [] s with
    | nil => exact absurd hl (splitLinesFrom_ne_nil [] hs)
    | cons first others =>
      rw [hl] at h
      rcases h with h | h <;> rw [h]
      · exact .inl rfl
      · exact .inr rfl

/-- The lines of the moved text. -/
theorem splitLines_moved (hw : w.all isIndent = true) (s : List Char) :
    IsMoved w (splitLines s) (splitLines (moved w s)) := by
  suffices h : ∀ line, IsMoved w (splitLinesFrom line s) (splitLinesFrom line (moved w s)) from
    h []
  intro line
  fun_induction splitLinesFrom line s with
  | case1 line h =>
    rw [moved_nil, splitLinesFrom_nil, if_pos h]
    exact .inl rfl
  | case2 line h =>
    rw [moved_nil, splitLinesFrom_nil, if_neg h]
    exact .inl rfl
  | case3 line rest ih =>
    rw [moved_pair, splitLinesFrom_pair]
    exact isMoved_behind hw _ ih
  | case4 line c rest hn h ih =>
    rw [moved_cons w hn, if_pos h, splitLinesFrom_cons _ ?_, if_pos h]
    · exact isMoved_behind hw _ ih
    · -- The line feed of a pair cannot come from the margin.
      intro rest' hc hr
      refine head?_moved_ne hw (s := rest) (fun hh => ?_) (by rw [hr]; rfl)
      obtain ⟨tail, rfl⟩ := List.head?_eq_some_iff.mp hh
      exact hn tail hc rfl
  | case5 line c rest hn h ih =>
    rw [moved_cons w hn, if_neg h, splitLinesFrom_cons _ ?_, if_neg h]
    · exact ih
    · rintro _ rfl _
      exact h (by decide)

/-! ## The margin that the lines share -/

theorem all_isIndent_append (hw : w.all isIndent = true) (l : List Char) :
    (w ++ l).all isIndent = l.all isIndent := by
  rw [List.all_append, hw, Bool.true_and]

theorem indentOf_append (hw : w.all isIndent = true) (l : List Char) :
    indentOf (w ++ l) = w ++ indentOf l :=
  List.takeWhile_append_of_pos (List.all_eq_true.mp hw)

theorem commonPrefix_append (w a b : List Char) :
    commonPrefix (w ++ a) (w ++ b) = w ++ commonPrefix a b := by
  induction w with
  | nil => rfl
  | cons c w ih => simp [commonPrefix, ih]

theorem foldl_commonPrefix_append (w first : List Char) (rest : List (List Char)) :
    (rest.map (w ++ ·)).foldl commonPrefix (w ++ first) = w ++ rest.foldl commonPrefix first := by
  induction rest generalizing first with
  | nil => rfl
  | cons l rest ih => rw [List.map_cons, List.foldl_cons, List.foldl_cons, commonPrefix_append, ih]

/-- The indentations of the lines of code, with a margin in front of all lines. -/
theorem indents_map_append (hw : w.all isIndent = true) (lines : List (List Char)) :
    ((lines.map (w ++ ·)).filter fun l => !l.all isIndent).map indentOf
      = ((lines.filter fun l => !l.all isIndent).map indentOf).map (w ++ ·) := by
  simp only [List.filter_map, List.map_map]
  refine congrArg₂ _ (funext fun l => indentOf_append hw l) (congrArg (List.filter · lines) ?_)
  exact funext fun l => congrArg (!·) (all_isIndent_append hw l)

/-- With a line of code among them, the margin of the lines grows by the one put in front. -/
theorem margin_map_append (hw : w.all isIndent = true) {lines : List (List Char)} {l : List Char}
    (hl : l ∈ lines) (hc : l.all isIndent = false) :
    margin (lines.map (w ++ ·)) = w ++ margin lines := by
  rw [margin, margin, indents_map_append hw]
  cases h : (lines.filter fun l => !l.all isIndent).map indentOf with
  | cons first rest => exact foldl_commonPrefix_append w first rest
  | nil =>
    have hm : l ∈ lines.filter fun l => !l.all isIndent :=
      List.mem_filter.mpr ⟨hl, by simp [hc]⟩
    rw [List.map_eq_nil_iff.mp h] at hm
    cases hm

/-- A margin in front of all lines is taken away again. -/
theorem dedent_map_append (hw : w.all isIndent = true) (lines : List (List Char)) :
    dedent (lines.map (w ++ ·)) = dedent lines := by
  rw [dedent, dedent, List.map_map]
  refine List.map_congr_left fun l hl => ?_
  rw [Function.comp_apply, all_isIndent_append hw]
  split
  · rfl
  · next hc =>
    rw [margin_map_append hw hl (Bool.eq_false_iff.mpr hc), List.length_append,
      ← List.drop_drop, List.drop_left]

/-! ## Blank lines at the end -/

theorem dropTrailing_concat (lines : List (List Char)) (l : List Char) :
    dropTrailing (lines ++ [l]) = if isAllBlank l then dropTrailing lines else lines ++ [l] := by
  rw [dropTrailing, List.reverse_concat, List.dropWhile_cons]
  split
  · rfl
  · simp

/-- Moved lines end where the lines do. -/
theorem dropTrailing_movedLines (hw : w.all isIndent = true) (lines : List (List Char)) :
    dropTrailing (movedLines w lines) = movedLines w (dropTrailing lines) := by
  cases lines with
  | nil => rfl
  | cons first others =>
    induction others using List.reverseRecOn with
    | nil =>
      have h := dropTrailing_concat [] first
      rw [movedLines, List.map_nil, show [first] = [] ++ [first] from rfl, h]
      split <;> rfl
    | append_singleton others l ih =>
      simp only [movedLines, List.map_append, List.map_cons, List.map_nil, ← List.cons_append,
        dropTrailing_concat, isAllBlank_append hw]
      split
      · exact ih
      · simp

theorem dropTrailing_of_isMoved (hw : w.all isIndent = true) {lines moved : List (List Char)}
    (h : IsMoved w lines moved) : dropTrailing moved = movedLines w (dropTrailing lines) := by
  rcases h with rfl | rfl
  · exact dropTrailing_movedLines hw lines
  · rw [dropTrailing_concat, if_pos (isAllBlank_margin hw), dropTrailing_movedLines hw]

end Margin

/-! ## The normal layout -/

/-- A closure has the same normal layout when it is moved sideways. -/
theorem normalize_moved (w : List Char) (hw : w.all isIndent = true) (source : List Char) :
    normalize (moved w source) = normalize source := by
  rw [normalize, normalize, dropTrailing_of_isMoved hw (splitLines_moved hw source)]
  cases dropTrailing (splitLines source) with
  | nil => rfl
  | cons first others => simp only [movedLines, dedent_map_append hw]

/-- A block under a head, with a blank line and a line end of two characters, moved by a tab and a
space. -/
theorem normalize_moved_block :
    ['\t', ' '].all isIndent = true
      ∧ normalize (moved ['\t', ' '] "if x:\r\n  y\n\n   z\n".toList)
        = "if x:\n    y\n\n     z".toList :=
  ⟨by decide, (normalize_moved ['\t', ' '] (by decide) _).trans (by decide)⟩

end MarkupTemplate.Host.Layout
