import Mathlib.Data.List.DropRight
import MarkupTemplate.Location

/-!
# Offsets of lines and columns

A line and a column stand for one offset of the source, which can be computed from them: it is as
far behind the start of the line as the column says. A later offset has a later line, or a later
column of the same line.

* `offset?`: the offset of a line and a column.
* `Marks`: a line and a column stand for an offset.
* `marks_locate`, `locate_eq_iff`: the location of an offset stands for it, and no other one does.
* `Marks.unique`, `Marks.before`: a location stands for one offset, and later ones for later offsets.
* `locate_faithful`: all of this of the offsets in a source.
-/
namespace MarkupTemplate.Location

/-- The offset just behind the line feed of a text that has the given number, counted from one; the
first line starts at the front. -/
def lineOffset? : Nat → List Char → Option Nat
  | 0, _ => some 0
  | _ + 1, [] => none
  | n + 1, c :: s => (lineOffset? (if c = '\n' then n else n + 1) s).map (· + 1)

/-- The offset that a location stands for, if the source has such a line. -/
def offset? (source : List Char) (l : Location) : Option Int :=
  (lineOffset? (l.line - 1) source).map fun start : Nat => l.column - 1 + start

/-- Locations in reading order: by lines, and in a line by columns. -/
def Before (l m : Location) : Prop :=
  Prod.Lex (· < ·) (· < ·) (l.line, l.column) (m.line, m.column)

/-- A location stands for an offset of a source. -/
structure Marks (source : List Char) (l : Location) (pos : Nat) : Prop where
  line_pos : 1 ≤ l.line
  column_pos : 1 ≤ l.column
  /-- As many lines as stand before that of the location end before the offset. -/
  count : (source.take pos).count '\n' = l.line - 1
  /-- There are as many characters before the offset as stand before the column. -/
  column_le : l.column - 1 ≤ pos
  /-- None of them ends a line. -/
  unbroken : '\n' ∉ Text.slice source (pos - (l.column - 1)).toNat pos
  offset : offset? source l = some (pos : Int)

variable {source : List Char} {l m : Location} {p q : Nat}

/-! ## The start of a line -/

/-- A text that ends with a line feed, or is empty, ends where the line starts that has all its line
feeds before it. -/
theorem lineOffset?_count {s : List Char} (h : ∀ c ∈ s.getLast?, c = '\n') (rest : List Char) :
    lineOffset? (s.count '\n') (s ++ rest) = some s.length := by
  induction s with
  | nil => simp [lineOffset?]
  | cons c s ih =>
    have hs : ∀ d ∈ s.getLast?, d = '\n' := fun d hd => h d (List.mem_getLast?_cons hd)
    -- a first character that is no line feed is not the last one, so a line feed follows
    obtain ⟨n, hn⟩ : ∃ n, (c :: s).count '\n' = n + 1
        ∧ (if c = '\n' then n else n + 1) = s.count '\n' := by
      by_cases hc : c = '\n'
      · exact ⟨s.count '\n', by simp [hc]⟩
      · have hne : s ≠ [] := by
          rintro rfl
          exact hc (h c rfl)
        have hmem : '\n' ∈ s := by
          have hlast := List.getLast?_eq_some_getLast hne
          rw [← hs _ hlast]
          exact List.getLast_mem hne
        obtain ⟨n, hn⟩ := Nat.exists_eq_succ_of_ne_zero (List.count_pos_iff.mpr hmem).ne'
        exact ⟨n, by simp [hc, hn]⟩
    rw [hn.1, List.cons_append, lineOffset?, hn.2, ih hs, Option.map_some, List.length_cons]

/-- A text is its whole lines and the beginning of the line that it ends in. -/
theorem exists_eq_lines (before : List Char) : ∃ s u, before = s ++ u
    ∧ lineStart before = s.length ∧ (∀ c ∈ s.getLast?, c = '\n') ∧ '\n' ∉ u := by
  have hsplit := before.rdropWhile_append_rtakeWhile (p := (· != '\n'))
  refine ⟨before.rdropWhile (· != '\n'), before.rtakeWhile (· != '\n'), hsplit.symm, ?_, ?_, ?_⟩
  · have hlen := congrArg List.length hsplit
    rw [List.length_append, List.rtakeWhile, List.length_reverse] at hlen
    rw [lineStart]
    omega
  · intro c hc
    obtain ⟨hne, rfl⟩ := List.mem_getLast?_eq_getLast hc
    simpa using List.rdropWhile_last_not (· != '\n') before hne
  · intro hmem
    simpa using List.mem_rtakeWhile_imp hmem

theorem reach_natCast {len : Nat} (h : p ≤ len) : reach len p = p := by
  rw [reach, if_neg (by omega), Int.toNat_natCast, Nat.min_eq_left h]

/-! ## The location of an offset -/

/-- The location of an offset in a source stands for the offset. -/
theorem marks_locate (h : p ≤ source.length) : Marks source (locate source p) p := by
  obtain ⟨s, u, hbefore, hstart, hs, hu⟩ := exists_eq_lines (source.take p)
  have hlen : s.length + u.length = p := by
    rw [← List.length_append, ← hbefore, List.length_take, Nat.min_eq_left h]
  have hcount : (source.take p).count '\n' = s.count '\n' := by
    rw [hbefore, List.count_append, List.count_eq_zero_of_not_mem hu, Nat.add_zero]
  have hsource : source = s ++ (u ++ source.drop p) := by
    rw [← List.append_assoc, ← hbefore, List.take_append_drop]
  have hlast : Text.slice source s.length p = u := by
    rw [Text.slice, ← List.drop_take, hbefore, List.drop_left]
  have hlocate : locate source p = ⟨s.count '\n' + 1, (p : Int) - s.length + 1⟩ := by
    rw [locate, reach_natCast h, hcount, hstart]
  have hline : (locate source p).line = s.count '\n' + 1 := by rw [hlocate]
  have hcolumn : (locate source p).column = (p : Int) - s.length + 1 := by rw [hlocate]
  refine ⟨by omega, by omega, by rw [hcount, hline, Nat.add_sub_cancel], by omega, ?_, ?_⟩
  · have hfrom : ((p : Int) - ((locate source p).column - 1)).toNat = s.length := by omega
    rwa [hfrom, hlast]
  · have hoffset : lineOffset? (s.count '\n') source = some s.length := by
      rw [hsource]
      exact lineOffset?_count hs _
    rw [offset?, hline, Nat.add_sub_cancel, hoffset, Option.map_some, Option.some.injEq]
    omega

/-- A location stands for one offset only. -/
theorem Marks.unique (hp : Marks source l p) (hq : Marks source l q) : p = q := by
  have h : some (p : Int) = some (q : Int) := hp.offset.symm.trans hq.offset
  exact Int.ofNat_inj.mp (Option.some.inj h)

/-- Locations of one line are as far from each other as their offsets. -/
theorem Marks.column_sub (hp : Marks source l p) (hq : Marks source m q) (h : l.line = m.line) :
    m.column - l.column = (q : Int) - p := by
  obtain ⟨start, hl, hstart⟩ := Option.map_eq_some_iff.mp hp.offset
  obtain ⟨start', hm, hstart'⟩ := Option.map_eq_some_iff.mp hq.offset
  rw [h, hm] at hl
  obtain rfl := Option.some.inj hl
  omega

/-- The line of a later offset is no earlier one. -/
theorem Marks.line_le (hp : Marks source l p) (hq : Marks source m q) (h : p ≤ q) :
    l.line ≤ m.line := by
  have htake : source.take p <+: source.take q := List.take_prefix_take_left h
  have hcount := htake.sublist.count_le '\n'
  rw [hp.count, hq.count] at hcount
  exact (Nat.sub_le_sub_iff_right hq.line_pos).mp hcount

/-- Later offsets have later locations. -/
theorem Marks.before (hp : Marks source l p) (hq : Marks source m q) (h : p < q) :
    l.Before m := by
  rw [Before, Prod.lex_def]
  rcases Nat.lt_or_eq_of_le (hp.line_le hq (Nat.le_of_lt h)) with hline | hline
  · exact .inl hline
  · have := hp.column_sub hq hline
    exact .inr ⟨hline, by omega⟩

/-- No location but its own stands for an offset in a source. -/
theorem locate_eq_iff (h : p ≤ source.length) : locate source p = l ↔ Marks source l p := by
  constructor
  · rintro rfl
    exact marks_locate h
  · intro hl
    have hp := marks_locate h
    have hline : (locate source p).line = l.line := by
      have := hp.line_le hl (Nat.le_refl p)
      have := hl.line_le hp (Nat.le_refl p)
      omega
    have hcolumn := hp.column_sub hl hline
    cases l
    cases hloc : locate source p
    simp only [hloc] at hline hcolumn
    rw [mk.injEq]
    exact ⟨hline, by omega⟩

/-- The location of every offset in a source stands for it. So offsets can be told from their
locations, and have the order in which these are read. -/
theorem locate_faithful (source : List Char) :
    (∀ pos : Nat, pos ≤ source.length → Marks source (locate source pos) pos)
      ∧ (∀ p q : Nat, p ≤ source.length → q ≤ source.length →
        locate source p = locate source q → p = q)
      ∧ ∀ p q : Nat, p < q → q ≤ source.length → (locate source p).Before (locate source q) := by
  refine ⟨fun pos h => marks_locate h, fun p q hp hq h => ?_, fun p q h hq => ?_⟩
  · have hmark : Marks source (locate source p) q := (locate_eq_iff hq).mp h.symm
    exact (marks_locate hp).unique hmark
  · have hp : p ≤ source.length := Nat.le_of_lt (Nat.lt_of_lt_of_le h hq)
    exact (marks_locate hp).before (marks_locate hq) h

/-- The line feed between two lines, and the character behind it. -/
theorem locate_faithful_lines :
    locate "ab\nc".toList (2 : Nat) = ⟨1, 3⟩ ∧ locate "ab\nc".toList (3 : Nat) = ⟨2, 1⟩
      ∧ Marks "ab\nc".toList ⟨1, 3⟩ 2 ∧ Marks "ab\nc".toList ⟨2, 1⟩ 3
      ∧ ⟨1, 3⟩ ≠ (⟨2, 1⟩ : Location) ∧ Before ⟨1, 3⟩ ⟨2, 1⟩ := by
  have h2 : locate "ab\nc".toList (2 : Nat) = ⟨1, 3⟩ := by decide
  have h3 : locate "ab\nc".toList (3 : Nat) = ⟨2, 1⟩ := by decide
  obtain ⟨hmarks, hinjective, hbefore⟩ := locate_faithful "ab\nc".toList
  have hm2 := hmarks 2 (by decide)
  have hm3 := hmarks 3 (by decide)
  have hne := mt (hinjective 2 3 (by decide) (by decide)) (by decide)
  have hlt := hbefore 2 3 (by decide) (by decide)
  rw [h2] at hm2 hne hlt
  rw [h3] at hm3 hne hlt
  exact ⟨h2, h3, hm2, hm3, hne, hlt⟩

end MarkupTemplate.Location
