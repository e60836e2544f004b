import MarkupTemplate.Text.Lines

/-!
# Lines and line ends

What stands in front of a text goes to the front of its first line. In a text whose line ends are
unified no carriage return is left; everything else is as it was.

* `splitLinesFrom_append`: the lines behind a text that has been collected.
* `unifyNewlines_append`: the parts of a text are unified each for itself.
* `unifyNewlines_of_not_mem`: a text without carriage returns stays as it is.
* `prefix_of_prefix_unifyNewlines`: what has no line feeds has been there before.
-/
namespace MarkupTemplate.Text

/-! ## Lines -/

/-- At the end of the text the line under way ends, if there is one. -/
theorem splitLinesFrom_nil (line : List Char) :
    splitLinesFrom line [] = if line.isEmpty then [] else [line.reverse] := rfl

/-- A carriage return and a line feed end one line. -/
theorem splitLinesFrom_pair (line rest : List Char) :
    splitLinesFrom line ('\r' :: '\n' :: rest) = line.reverse :: splitLinesFrom [] rest := rfl

/-- Any other character is looked at by itself. -/
theorem splitLinesFrom_cons (line : List Char) {c : Char} {rest : List Char}
    (h : ∀ tail, c = '\r' → rest = '\n' :: tail → False) :
    splitLinesFrom line (c :: rest)
      = if isLineEnd c then line.reverse :: splitLinesFrom [] rest
        else splitLinesFrom (c :: line) rest := by
  rw [splitLinesFrom.eq_def line (c :: rest)]
  split
  · next hnil => exact absurd hnil (List.cons_ne_nil _ _)
  · next tail hpair =>
    obtain ⟨hc, hrest⟩ := List.cons.inj hpair
    exact (h tail hc hrest).elim
  · next hcons =>
    obtain ⟨rfl, rfl⟩ := List.cons.inj hcons
    rfl

/-- What is collected before a line ends up in front of it. -/
theorem splitLinesFrom_append (v line s : List Char) :
    splitLinesFrom (line ++ v.reverse) s
      = match splitLinesFrom line s with
        | [] => if v.isEmpty then [] else [v]
        | first :: others => (v ++ first) :: others := by
  fun_induction splitLinesFrom line s with
  | case1 line h =>
    obtain rfl := List.isEmpty_iff.mp h
    cases v <;> simp [splitLinesFrom_nil]
  | case2 line h =>
    simp only [List.isEmpty_iff] at h
    simp [splitLinesFrom_nil, h]
  | case3 line rest => simp [splitLinesFrom_pair]
  | case4 line c rest hpair h => simp [splitLinesFrom_cons _ hpair, h]
  | case5 line c rest hpair h ih => simpa [splitLinesFrom_cons _ hpair, h] using ih

/-- The lines of a text that is not empty. -/
theorem splitLinesFrom_ne_nil (line : List Char) {s : List Char} (h : s ≠ []) :
    splitLinesFrom line s ≠ [] := by
  fun_induction splitLinesFrom line s with
  | case1 => exact absurd rfl h
  | case2 => exact absurd rfl h
  | case3 => exact List.cons_ne_nil _ _
  | case4 => exact List.cons_ne_nil _ _
  | case5 line c rest _ hc ih =>
    cases rest with
    | nil => simp [splitLinesFrom_nil]
    | cons d rest => exact ih (List.cons_ne_nil d rest)

/-! ## Unified line ends -/

theorem unifyNewlines_cons {c : Char} {s : List Char} (h : c = '\r' → s.head? ≠ some '\n') :
    unifyNewlines (c :: s) = (if c == '\r' then '\n' else c) :: unifyNewlines s := by
  rw [unifyNewlines]
  rintro rest rfl rfl
  exact h rfl rfl

theorem unifyNewlines_cons_of_ne {c : Char} (hc : c ≠ '\r') (s : List Char) :
    unifyNewlines (c :: s) = c :: unifyNewlines s := by
  rw [unifyNewlines_cons fun h => absurd h hc, if_neg (by simpa using hc)]

/-- The parts of a text are unified each for itself, unless they part a line end. -/
theorem unifyNewlines_append {a b : List Char}
    (h : a.getLast? = some '\r' → b.head? ≠ some '\n') :
    unifyNewlines (a ++ b) = unifyNewlines a ++ unifyNewlines b := by
  fun_induction unifyNewlines a with
  | case1 => rfl
  | case2 rest ih =>
    rw [List.cons_append, List.cons_append, unifyNewlines, ih, List.cons_append]
    exact fun hlast => h (by simp [List.getLast?_cons, hlast])
  | case3 c rest hne ih =>
    rw [List.cons_append, unifyNewlines_cons, ih, List.cons_append]
    · exact fun hlast => h (by simp [List.getLast?_cons, hlast])
    · rintro rfl hhead
      cases rest with
      | nil => exact h rfl hhead
      | cons d rest =>
        cases hhead
        exact hne rest rfl rfl

theorem not_mem_unifyNewlines (s : List Char) : '\r' ∉ unifyNewlines s := by
  fun_induction unifyNewlines s with
  | case1 => simp
  | case2 rest ih => simpa using ih
  | case3 c rest hne ih =>
    rw [List.mem_cons, not_or]
    refine ⟨?_, ih⟩
    split
    · decide
    · next hc => exact Ne.symm (by simpa using hc)

/-- What stands at the front of a unified text and has no line feeds has been there before. -/
theorem prefix_of_prefix_unifyNewlines {w s : List Char} (hw : '\n' ∉ w)
    (h : w <+: unifyNewlines s) : w <+: s := by
  induction w generalizing s with
  | nil => exact List.nil_prefix
  | cons d w ih =>
    obtain ⟨hd, hw⟩ := not_or.mp (mt List.mem_cons.mpr hw)
    cases s with
    | nil => exact absurd (List.prefix_nil.mp h) (List.cons_ne_nil d w)
    | cons c s =>
      by_cases hline : c = '\r' ∧ s.head? = some '\n'
      · obtain ⟨rfl, hs⟩ := hline
        cases s with
        | nil => cases hs
        | cons e s =>
          cases hs
          exact absurd (List.cons_prefix_cons.mp h).1.symm hd
      · rw [unifyNewlines_cons fun hc hs => hline ⟨hc, hs⟩, List.cons_prefix_cons] at h
        obtain ⟨hc, hrest⟩ := h
        split at hc
        · exact absurd hc.symm hd
        · exact List.cons_prefix_cons.mpr ⟨hc, ih hw hrest⟩

theorem unifyNewlines_of_not_mem {s : List Char} (h : '\r' ∉ s) : unifyNewlines s = s := by
  fun_induction unifyNewlines s with
  | case1 => rfl
  | case2 rest => exact absurd List.mem_cons_self h
  | case3 c rest hne ih =>
    obtain ⟨hc, hr⟩ := not_or.mp (mt List.mem_cons.mpr h)
    rw [ih hr, if_neg (by simpa using Ne.symm hc)]

theorem unifyNewlines_ne_nil {s : List Char} (h : s ≠ []) : unifyNewlines s ≠ [] := by
  fun_cases unifyNewlines s with
  | case1 => exact absurd rfl h
  | case2 rest => exact List.cons_ne_nil _ _
  | case3 c rest => exact List.cons_ne_nil _ _

theorem length_unifyNewlines_le (s : List Char) : (unifyNewlines s).length ≤ s.length := by
  fun_induction unifyNewlines s with
  | case1 => exact Nat.le_refl _
  | case2 rest ih => exact Nat.le_succ_of_le (Nat.succ_le_succ ih)
  | case3 c rest hne ih => exact Nat.succ_le_succ ih

end MarkupTemplate.Text
