import MarkupTemplate.Proofs.Host.Layout
import MarkupTemplate.Proofs.Text.Trim

/-!
# Lines of code

The host language ends a line at a line feed, at a carriage return, or at both. Laying out a closure
goes by all line boundaries of Unicode: the lines of code of the normal layout are the pieces of
code between these. So every line of code is kept exactly if none has such a boundary inside.

* `hostLines`, `codeLines`: the lines of the host language, and those with code.
* `codePieces`: the pieces of code between the boundaries of Unicode.
* `codeLines_normalize`: the lines of code of the normal layout.
* `Parts`: how the pieces of a text relate to its lines.
* `codePieces_eq`: the pieces of a text are those of its lines.
* `normalize_keeps_code`: when they are its lines of code.
-/
namespace MarkupTemplate.Host.Layout

open MarkupTemplate.Text

/-- The lines of a text in the host language. -/
def hostLines (s : List Char) : List (List Char) := (unifyNewlines s).splitOn '\n'

/-- Lines without the blanks at their ends; blank lines are left out. -/
def codeOf (lines : List (List Char)) : List (List Char) := (lines.map trim).filter (!·.isEmpty)

/-- The lines of code of a text in the host language. -/
def codeLines (s : List Char) : List (List Char) := codeOf (hostLines s)

/-- The pieces of code of a text between the line boundaries of Unicode. -/
def codePieces (s : List Char) : List (List Char) := codeOf (splitLines s)

/-- Some lines of code, or the empty statement when there are none. -/
def linesOrPass (lines : List (List Char)) : List (List Char) :=
  if lines = [] then ["pass".toList] else lines

section Code

variable {ls ms : List (List Char)} {a b l : List Char}

/-! ## Code -/

theorem codeOf_append (ls ms : List (List Char)) : codeOf (ls ++ ms) = codeOf ls ++ codeOf ms := by
  simp [codeOf]

theorem codeOf_cons (l : List Char) (ls : List (List Char)) :
    codeOf (l :: ls) = codeOf [l] ++ codeOf ls :=
  codeOf_append [l] ls

theorem codeOf_singleton (l : List Char) :
    codeOf [l] = if isAllBlank l then [] else [trim l] := by
  by_cases h : isAllBlank l = true
  · rw [if_pos h, codeOf, List.map_singleton, trim_eq_nil_iff.mpr h]
    rfl
  · have hne : trim l ≠ [] := mt trim_eq_nil_iff.mp h
    simp [codeOf, h, hne]

theorem length_codeOf_singleton_le (l : List Char) : (codeOf [l]).length ≤ 1 := by
  rw [codeOf_singleton]
  split <;> simp

theorem codeOf_eq_flatMap (ls : List (List Char)) : codeOf ls = ls.flatMap fun l => codeOf [l] := by
  induction ls with
  | nil => rfl
  | cons l ls ih => rw [codeOf_cons, List.flatMap_cons, ih]

theorem codeOf_eq_nil_iff : codeOf ls = [] ↔ ∀ l ∈ ls, isAllBlank l = true := by
  simp [codeOf, trim_eq_nil_iff]

/-- Blanks at the ends of lines make no difference to the code. -/
theorem codeOf_map {f : List Char → List Char} (h : ∀ l ∈ ls, trim (f l) = trim l) :
    codeOf (ls.map f) = codeOf ls := by
  rw [codeOf, codeOf, List.map_map]
  exact congrArg _ (List.map_congr_left h)

theorem codeOf_dropWhile {p : List Char → Bool} (h : ∀ l, p l = true → isAllBlank l = true)
    (ls : List (List Char)) : codeOf (ls.dropWhile p) = codeOf ls := by
  conv_rhs => rw [← ls.takeWhile_append_dropWhile (p := p), codeOf_append]
  have hnone : codeOf (ls.takeWhile p) = [] :=
    codeOf_eq_nil_iff.mpr fun l hl => h l (List.mem_takeWhile_imp hl)
  rw [hnone, List.nil_append]

theorem codeOf_reverse (ls : List (List Char)) : codeOf ls.reverse = (codeOf ls).reverse := by
  simp [codeOf]

theorem isAllBlank_of_isEmpty (h : l.isEmpty = true) : isAllBlank l = true := by
  rw [List.isEmpty_iff.mp h]
  rfl

theorem codeOf_trim (l : List Char) : codeOf [trim l] = codeOf [l] := by
  have h : ∀ d ∈ [l], trim (trim d) = trim d := fun d _ => trim_trim d
  exact codeOf_map h

theorem codeOf_trimEmpty (ls : List (List Char)) : codeOf (trimEmpty ls) = codeOf ls := by
  rw [trimEmpty, codeOf_reverse, codeOf_dropWhile fun _ => isAllBlank_of_isEmpty, codeOf_reverse,
    List.reverse_reverse, codeOf_dropWhile fun _ => isAllBlank_of_isEmpty]

theorem codeOf_dropTrailing (ls : List (List Char)) : codeOf (dropTrailing ls) = codeOf ls := by
  rw [dropTrailing, codeOf_reverse, codeOf_dropWhile fun _ => id, codeOf_reverse,
    List.reverse_reverse]

/-- Behind the last line of code nothing is left. -/
theorem dropTrailing_eq_nil (h : codeOf ls = []) : dropTrailing ls = [] := by
  rw [dropTrailing, List.reverse_eq_nil_iff, List.dropWhile_eq_nil_iff]
  exact fun l hl => codeOf_eq_nil_iff.mp h l (List.mem_reverse.mp hl)

/-! ## Indentation -/

theorem commonPrefix_prefix (a b : List Char) :
    commonPrefix a b <+: a ∧ commonPrefix a b <+: b := by
  fun_induction commonPrefix a b with
  | case1 a as bs ih =>
    exact ⟨List.cons_prefix_cons.mpr ⟨rfl, ih.1⟩, List.cons_prefix_cons.mpr ⟨rfl, ih.2⟩⟩
  | case2 => exact ⟨List.nil_prefix, List.nil_prefix⟩
  | case3 => exact ⟨List.nil_prefix, List.nil_prefix⟩

/-- What lines have in common is a prefix of each of them. -/
theorem foldl_commonPrefix_prefix (ls : List (List Char)) (a : List Char) :
    ls.foldl commonPrefix a <+: a ∧ ∀ l ∈ ls, ls.foldl commonPrefix a <+: l := by
  induction ls generalizing a with
  | nil => exact ⟨List.prefix_rfl, by simp⟩
  | cons l ls ih =>
    obtain ⟨hfirst, hrest⟩ := ih (commonPrefix a l)
    obtain ⟨ha, hl⟩ := commonPrefix_prefix a l
    refine ⟨hfirst.trans ha, fun m hm => ?_⟩
    rcases List.mem_cons.mp hm with rfl | hm
    · exact hfirst.trans hl
    · exact hrest m hm

/-- The margin of some lines opens every line of code. -/
theorem margin_prefix (hl : l ∈ ls) (hc : l.all isIndent = false) : margin ls <+: indentOf l := by
  have hmem : indentOf l ∈ (ls.filter fun l => !l.all isIndent).map indentOf :=
    List.mem_map_of_mem (List.mem_filter.mpr ⟨hl, by simp [hc]⟩)
  rw [margin]
  split
  · next hnil =>
    rw [hnil] at hmem
    cases hmem
  · next first rest hcons =>
    obtain ⟨hfirst, hrest⟩ := foldl_commonPrefix_prefix rest first
    rw [hcons] at hmem
    rcases List.mem_cons.mp hmem with he | hm
    · rwa [he]
    · exact hrest _ hm

theorem codeOf_dedent (ls : List (List Char)) : codeOf (dedent ls) = codeOf ls := by
  refine codeOf_map fun l hl => ?_
  split
  · next h =>
    rw [trim_eq_nil_iff.mpr (isAllBlank_margin h)]
    rfl
  · next h =>
    have hmargin := margin_prefix hl (Bool.eq_false_iff.mpr h)
    obtain ⟨rest, hrest⟩ := hmargin.trans (List.takeWhile_prefix isIndent)
    have hindent : (margin ls).all isIndent = true :=
      List.all_eq_true.mpr fun c hc => List.mem_takeWhile_imp (hmargin.subset hc)
    rw [← hrest, List.drop_left, trim_blank_append (isAllBlank_margin hindent)]

theorem codeOf_indentLines (ls : List (List Char)) : codeOf (indentLines ls) = codeOf ls := by
  refine codeOf_map fun l _ => ?_
  split
  · rfl
  · exact trim_blank_append (v := [' ', ' ', ' ', ' ']) (by decide)

end Code

/-! ## Lines without boundaries -/

/-- No character of a line ends it. -/
def Unbroken (l : List Char) : Prop := ∀ c ∈ l, isLineEnd c = false

section Unbroken

variable {ls : List (List Char)} {a b l line s : List Char}

theorem Unbroken.mono (h : Unbroken l) (hs : a ⊆ l) : Unbroken a := fun c hc => h c (hs hc)

theorem Unbroken.append (ha : Unbroken a) (hb : Unbroken b) : Unbroken (a ++ b) :=
  fun c hc => (List.mem_append.mp hc).elim (ha c) (hb c)

theorem Unbroken.nil : Unbroken [] := fun _ hc => nomatch hc

theorem Unbroken.not_mem {c : Char} (h : Unbroken l) (hc : isLineEnd c = true) : c ∉ l := by
  intro hm
  rw [h c hm] at hc
  cases hc

theorem isBlank_of_isLineEnd {c : Char} (h : isLineEnd c = true) : isBlank c = true := by
  simp only [isLineEnd, Bool.or_eq_true, beq_iff_eq] at h
  rcases h with (((((((((rfl | rfl) | rfl) | rfl) | rfl) | rfl) | rfl) | rfl) | rfl) | rfl)
  all_goals decide

theorem unbroken_splitLinesFrom (h : Unbroken line) : ∀ l ∈ splitLinesFrom line s, Unbroken l := by
  have hline : Unbroken line.reverse := h.mono (List.reverse_subset.mpr (List.Subset.refl _))
  fun_induction splitLinesFrom line s with
  | case1 => simp
  | case2 => simpa using hline
  | case3 line rest ih => exact List.forall_mem_cons.mpr ⟨hline, ih .nil .nil⟩
  | case4 line c rest _ _ ih => exact List.forall_mem_cons.mpr ⟨hline, ih .nil .nil⟩
  | case5 line c rest _ hc ih =>
    have hcons : Unbroken (c :: line) :=
      List.forall_mem_cons.mpr ⟨Bool.eq_false_iff.mpr hc, h⟩
    exact ih hcons (hcons.mono (List.reverse_subset.mpr (List.Subset.refl _)))

theorem unbroken_dropTrailing (h : ∀ l ∈ ls, Unbroken l) : ∀ l ∈ dropTrailing ls, Unbroken l :=
  fun l hl => h l (List.mem_reverse.mp (List.dropWhile_subset _ (List.mem_reverse.mp hl)))

theorem unbroken_trimEmpty (h : ∀ l ∈ ls, Unbroken l) : ∀ l ∈ trimEmpty ls, Unbroken l :=
  fun l hl => h l (List.dropWhile_subset _
    (List.mem_reverse.mp (List.dropWhile_subset _ (List.mem_reverse.mp hl))))

theorem unbroken_dedent (h : ∀ l ∈ ls, Unbroken l) : ∀ l ∈ dedent ls, Unbroken l := by
  refine List.forall_mem_map.mpr fun l hl => ?_
  split
  · exact .nil
  · exact (h l hl).mono (List.drop_subset _ _)

theorem unbroken_indentLines (h : ∀ l ∈ ls, Unbroken l) : ∀ l ∈ indentLines ls, Unbroken l := by
  refine List.forall_mem_map.mpr fun l hl => ?_
  split
  · exact h l hl
  · have hspaces : Unbroken (List.replicate 4 ' ') := by
      intro c hc
      rw [List.eq_of_mem_replicate hc]
      rfl
    exact hspaces.append (h l hl)

theorem Unbroken.trim (h : Unbroken l) : Unbroken (trim l) := by
  obtain ⟨v, w, hs, -⟩ := exists_eq_trim l
  refine h.mono fun c hc => ?_
  rw [hs]
  exact List.mem_append_right _ (List.mem_append_left _ hc)

theorem joinLines_cons {ls : List (List Char)} (h : ls ≠ []) (l : List Char) :
    joinLines (l :: ls) = l ++ '\n' :: joinLines ls := by
  cases ls with
  | nil => exact absurd rfl h
  | cons m ls => rfl

theorem not_mem_joinLines {c : Char} (hc : c ≠ '\n') (h : ∀ l ∈ ls, c ∉ l) :
    c ∉ joinLines ls := by
  induction ls with
  | nil => exact List.not_mem_nil
  | cons l ls ih =>
    obtain ⟨hl, hls⟩ := List.forall_mem_cons.mp h
    by_cases hn : ls = []
    · subst hn
      simpa [joinLines] using hl
    · rw [joinLines_cons hn, List.mem_append, List.mem_cons]
      rintro (hm | hm | hm)
      · exact hl hm
      · exact hc hm
      · exact ih hls hm

theorem mem_joinLines {c : Char} (hl : l ∈ ls) (hc : c ∈ l) : c ∈ joinLines ls := by
  induction ls with
  | nil => cases hl
  | cons m ls ih =>
    by_cases hn : ls = []
    · subst hn
      obtain rfl := List.mem_singleton.mp hl
      simpa [joinLines] using hc
    · rw [joinLines_cons hn, List.mem_append, List.mem_cons]
      rcases List.mem_cons.mp hl with rfl | hl
      · exact .inl hc
      · exact .inr (.inr (ih hl))

/-- Lines without boundaries, written one under the other, are the lines of the text. -/
theorem codeLines_joinLines (h : ∀ l ∈ ls, Unbroken l) : codeLines (joinLines ls) = codeOf ls := by
  by_cases hn : ls = []
  · subst hn
    decide
  · have hr : '\r' ∉ joinLines ls :=
      not_mem_joinLines (by decide) fun l hl => (h l hl).not_mem (by decide)
    rw [codeLines, hostLines, unifyNewlines_of_not_mem hr]
    exact congrArg codeOf
      (List.splitOn_intercalate '\n' (fun l hl => (h l hl).not_mem (by decide)) hn)

/-- Lines with code on one of them, without the blank lines around them. -/
theorem codeLines_trimEmpty (h : ∀ l ∈ ls, Unbroken l) (hsome : codeOf ls ≠ []) :
    codeLines (orPass (joinLines (trimEmpty ls))) = codeOf ls := by
  have hcode := codeLines_joinLines (unbroken_trimEmpty h)
  rw [codeOf_trimEmpty] at hcode
  rw [orPass, if_neg, hcode]
  intro hempty
  rw [List.isEmpty_iff.mp hempty] at hcode
  exact hsome (hcode.symm.trans (by decide))

/-- A line and, under it, lines with code on one of them, without the blank lines around them. -/
theorem codeLines_trim_trimEmpty (hl : Unbroken l) (h : ∀ l ∈ ls, Unbroken l)
    (hsome : codeOf ls ≠ []) :
    codeLines (trim l ++ '\n' :: joinLines (trimEmpty ls)) = codeOf [l] ++ codeOf ls := by
  have hne : trimEmpty ls ≠ [] := fun hnil => hsome (by
    rw [← codeOf_trimEmpty, hnil]
    rfl)
  rw [← joinLines_cons hne, codeLines_joinLines
    (List.forall_mem_cons.mpr ⟨hl.trim, unbroken_trimEmpty h⟩), codeOf_cons, codeOf_trim,
    codeOf_trimEmpty]

end Unbroken

/-! ## The normal layout -/

/-- The lines of code of the normal layout are the pieces of code of the closure. -/
theorem codeLines_normalize (source : List Char) :
    codeLines (normalize source) = linesOrPass (codePieces source) := by
  have hlines := unbroken_dropTrailing (unbroken_splitLinesFrom (s := source) .nil)
  have hcode : codePieces source = codeOf (dropTrailing (splitLines source)) :=
    (codeOf_dropTrailing _).symm
  rw [normalize]
  split
  · next hnil =>
    have hnil : codePieces source = [] := by rw [hcode, hnil]; rfl
    rw [hnil]
    decide
  · next first others hcons =>
    change ∀ l ∈ dropTrailing (splitLines source), Unbroken l at hlines
    have hsome : codePieces source ≠ [] := fun h => by
      rw [dropTrailing_eq_nil h] at hcons
      cases hcons
    rw [hcode, hcons, codeOf_cons] at hsome
    rw [hcode, hcons, codeOf_cons, linesOrPass, if_neg hsome]
    rw [hcons] at hlines
    obtain ⟨hfirst, hothers⟩ := List.forall_mem_cons.mp hlines
    have hrest := unbroken_dedent hothers
    rw [← codeOf_dedent others] at hsome ⊢
    simp only
    split
    · next hempty =>
      -- the text begins below the line of the brace
      have hblank : codeOf [first] = [] := by
        simp [codeOf_singleton, trim_eq_nil_iff.mp (List.isEmpty_iff.mp hempty)]
      rw [hblank, List.nil_append] at hsome ⊢
      exact codeLines_trimEmpty hrest hsome
    · split
      · next hall =>
        have hnone : codeOf (dedent others) = [] :=
          codeOf_eq_nil_iff.mpr (List.all_eq_true.mp hall)
        rw [hnone, List.append_nil, ← codeOf_trim first,
          ← codeLines_joinLines (List.forall_mem_singleton.mpr hfirst.trim)]
        exact congrArg codeLines (List.append_nil _).symm
      · next hall =>
        have hsomeRest : codeOf (dedent others) ≠ [] := fun h =>
          hall (List.all_eq_true.mpr (codeOf_eq_nil_iff.mp h))
        -- whether the first line opens a block or not, the other lines keep their code
        split
        · rw [← codeOf_indentLines (dedent others)] at hsomeRest ⊢
          exact codeLines_trim_trimEmpty hfirst (unbroken_indentLines hrest) hsomeRest
        · exact codeLines_trim_trimEmpty hfirst hrest hsomeRest

/-! ## Pieces of code -/

section Pieces

variable {a b v line s : List Char}

/-- Pieces are parts of lines: there are no fewer of them, and a single one is all there is. -/
structure Parts (pieces lines : List (List Char)) : Prop where
  le : lines.length ≤ pieces.length
  eq : pieces.length ≤ 1 → pieces = lines

namespace Parts

variable {p q r : List (List Char)}

theorem refl (p : List (List Char)) : Parts p p := ⟨Nat.le_refl _, fun _ => rfl⟩

theorem trans (h : Parts p q) (h' : Parts q r) : Parts p r :=
  ⟨h'.le.trans h.le, fun hp => (h.eq hp).trans (h'.eq (h.le.trans hp))⟩

theorem append (x : List (List Char)) (h : Parts p q) : Parts (x ++ p) (x ++ q) := by
  refine ⟨by simpa using h.le, fun hp => ?_⟩
  rw [List.length_append] at hp
  rw [h.eq (by omega)]

/-- Where all pieces together are no more than the lines, those of each text are no more. -/
theorem length_eq {α : Type} {f g : α → List (List Char)} (h : ∀ x, Parts (f x) (g x))
    {xs : List α} (he : xs.flatMap f = xs.flatMap g) : ∀ x ∈ xs, (f x).length = (g x).length := by
  have hsum : ∀ ys : List α, (ys.flatMap g).length ≤ (ys.flatMap f).length := by
    intro ys
    induction ys with
    | nil => exact Nat.le_refl _
    | cons y ys ih => simpa only [List.flatMap_cons, List.length_append] using
        Nat.add_le_add (h y).le ih
  replace he := congrArg List.length he
  induction xs with
  | nil => simp
  | cons x xs ih =>
    rw [List.flatMap_cons, List.flatMap_cons, List.length_append, List.length_append] at he
    have hx := (h x).le
    have hxs := hsum xs
    exact List.forall_mem_cons.mpr ⟨by omega, ih (by omega)⟩

end Parts

/-- Blanks between two texts part one line of code, if both have code. -/
theorem parts_blank (a b : List Char) (hv : isAllBlank v = true) :
    Parts (codeOf [a] ++ codeOf [b]) (codeOf [a ++ (v ++ b)]) := by
  have happend (x y : List Char) : isAllBlank (x ++ y) = (isAllBlank x && isAllBlank y) :=
    List.all_append
  by_cases ha : isAllBlank a = true
  · have htrim : trim (a ++ (v ++ b)) = trim b := by rw [trim_blank_append ha, trim_blank_append hv]
    have hcode : codeOf [a ++ (v ++ b)] = codeOf [a] ++ codeOf [b] := by
      simp [codeOf_singleton, htrim, happend, ha, hv]
    exact hcode ▸ .refl _
  · by_cases hb : isAllBlank b = true
    · have hvb : isAllBlank (v ++ b) = true := by simp [happend, hv, hb]
      have hcode : codeOf [a ++ (v ++ b)] = codeOf [a] ++ codeOf [b] := by
        simp [codeOf_singleton, trim_append_blank hvb, happend, ha, hv, hb]
      exact hcode ▸ .refl _
    · constructor <;> simp [codeOf_singleton, happend, ha, hb]

theorem parts_splitLinesFrom (line s : List Char) :
    Parts (codeOf (splitLinesFrom line s)) (codeOf [line.reverse ++ s]) := by
  -- behind a boundary stand the pieces of the rest
  have hbehind : ∀ {v line rest : List Char}, isAllBlank v = true →
      Parts (codeOf (splitLinesFrom [] rest)) (codeOf [rest]) →
      Parts (codeOf (line.reverse :: splitLinesFrom [] rest))
        (codeOf [line.reverse ++ (v ++ rest)]) := by
    intro v line rest hv ih
    rw [codeOf_cons]
    exact (ih.append _).trans (parts_blank _ _ hv)
  fun_induction splitLinesFrom line s with
  | case1 line h =>
    obtain rfl := List.isEmpty_iff.mp h
    exact .refl _
  | case2 line => simpa using Parts.refl _
  | case3 line rest ih => exact hbehind (v := ['\r', '\n']) (by decide) ih
  | case4 line c rest _ hc ih =>
    exact hbehind (v := [c]) (by simp [isAllBlank, isBlank_of_isLineEnd hc]) ih
  | case5 line c rest _ _ ih => simpa using ih

/-- The pieces of a text are parts of it. -/
theorem parts_codePieces (s : List Char) : Parts (codePieces s) (codeOf [s]) :=
  parts_splitLinesFrom [] s

/-- A line feed parts the pieces of code. -/
theorem codePieces_append (hr : '\r' ∉ a) (b : List Char) :
    codePieces (a ++ '\n' :: b) = codePieces a ++ codePieces b := by
  suffices h : ∀ line, codeOf (splitLinesFrom line (a ++ '\n' :: b))
      = codeOf (splitLinesFrom line a) ++ codePieces b from h []
  intro line
  induction a generalizing line with
  | nil =>
    rw [List.nil_append, splitLinesFrom_cons _ fun _ h => absurd h (by decide), if_pos (by decide),
      codeOf_cons, splitLinesFrom_nil]
    split
    · next h =>
      obtain rfl := List.isEmpty_iff.mp h
      rfl
    · rfl
  | cons c a ih =>
    obtain ⟨hc, hr⟩ := not_or.mp (mt List.mem_cons.mpr hr)
    have hpair : ∀ (rest tail : List Char), c = '\r' → rest = '\n' :: tail → False :=
      fun _ _ h _ => hc h.symm
    rw [List.cons_append, splitLinesFrom_cons _ (hpair _), splitLinesFrom_cons _ (hpair _)]
    split
    · rw [codeOf_cons, codeOf_cons _ (splitLinesFrom [] a), ih hr, List.append_assoc]
    · exact ih hr _

theorem codePieces_joinLines {ls : List (List Char)} (h : ∀ l ∈ ls, '\r' ∉ l) :
    codePieces (joinLines ls) = ls.flatMap codePieces := by
  induction ls with
  | nil => rfl
  | cons l ls ih =>
    obtain ⟨hl, hls⟩ := List.forall_mem_cons.mp h
    by_cases hn : ls = []
    · subst hn
      simp [joinLines]
    · rw [joinLines_cons hn, codePieces_append hl, ih hls, List.flatMap_cons]

/-- For Unicode all spellings of a newline are the same boundary. -/
theorem splitLinesFrom_unifyNewlines (line s : List Char) :
    splitLinesFrom line (unifyNewlines s) = splitLinesFrom line s := by
  have hcons : ∀ {c : Char} {line rest : List Char},
      (∀ tail, c = '\r' → rest = '\n' :: tail → False) →
      splitLinesFrom line (unifyNewlines (c :: rest))
        = if isLineEnd c then line.reverse :: splitLinesFrom [] (unifyNewlines rest)
          else splitLinesFrom (c :: line) (unifyNewlines rest) := by
    intro c line rest hpair
    rw [unifyNewlines_cons fun hc hh => ?_]
    · by_cases hc : c = '\r'
      · subst hc
        rw [if_pos (by decide), splitLinesFrom_cons _ fun _ h => absurd h (by decide),
          if_pos (by decide), if_pos (by decide)]
      · rw [if_neg (by simpa using hc), splitLinesFrom_cons _ fun _ h => absurd h hc]
    · obtain ⟨tail, rfl⟩ := List.head?_eq_some_iff.mp hh
      exact hpair tail hc rfl
  fun_induction splitLinesFrom line s with
  | case1 line h => rw [unifyNewlines, splitLinesFrom_nil, if_pos h]
  | case2 line h => rw [unifyNewlines, splitLinesFrom_nil, if_neg h]
  | case3 line rest ih =>
    rw [unifyNewlines, splitLinesFrom_cons _ fun _ h => absurd h (by decide), if_pos (by decide),
      ih]
  | case4 line c rest hpair hc ih => rw [hcons hpair, if_pos hc, ih]
  | case5 line c rest hpair hc ih => rw [hcons hpair, if_neg hc, ih]

/-- The pieces of a text are those of its lines. -/
theorem codePieces_eq (s : List Char) : codePieces s = (hostLines s).flatMap codePieces := by
  have hjoin : joinLines (hostLines s) = unifyNewlines s := List.intercalate_splitOn '\n'
  have hr : ∀ l ∈ hostLines s, '\r' ∉ l := fun l hl hm =>
    not_mem_unifyNewlines s (hjoin ▸ mem_joinLines hl hm)
  rw [← codePieces_joinLines hr, hjoin]
  exact congrArg codeOf (splitLinesFrom_unifyNewlines [] s).symm

/-- The pieces of a text are its lines of code exactly if none of its lines is parted. -/
theorem linesOrPass_eq_iff (s : List Char) :
    linesOrPass (codePieces s) = linesOrPass (codeLines s)
      ↔ ∀ l ∈ hostLines s, (codePieces l).length ≤ 1 := by
  rw [codePieces_eq, codeLines, codeOf_eq_flatMap]
  constructor
  · intro h
    by_cases he : (hostLines s).flatMap codePieces = (hostLines s).flatMap fun l => codeOf [l]
    · intro l hl
      rw [Parts.length_eq parts_codePieces he l hl]
      exact length_codeOf_singleton_le l
    · -- the one piece is the empty statement, written out
      have hone : ((hostLines s).flatMap codePieces).length ≤ 1 := by
        unfold linesOrPass at h
        split at h
        · next hnil => rw [hnil]; exact Nat.zero_le _
        · split at h
          · rw [h]; exact Nat.le_refl _
          · exact absurd h he
      intro l hl
      obtain ⟨before, behind, hs⟩ := List.append_of_mem hl
      rw [hs, List.flatMap_append, List.flatMap_cons, List.length_append, List.length_append]
        at hone
      omega
  · intro h
    refine congrArg linesOrPass (List.flatMap_congr fun l hl => ?_)
    exact (parts_codePieces l).eq (h l hl)

end Pieces

/-- The normal layout of a closure has the pieces of its lines as lines of code, or the empty
statement when it has none. These are its own lines of code exactly if none of its lines has a
boundary inside. -/
theorem normalize_keeps_code (source : List Char) :
    codeLines (normalize source) = linesOrPass ((hostLines source).flatMap codePieces)
      ∧ (codeLines (normalize source) = linesOrPass (codeLines source)
        ↔ ∀ l ∈ hostLines source, (codePieces l).length ≤ 1) := by
  rw [codeLines_normalize]
  exact ⟨congrArg linesOrPass (codePieces_eq source), linesOrPass_eq_iff source⟩

/-- A line separator inside a string literal parts the line. -/
theorem not_keeps_separator :
    codeLines "x = \"a\u2028b\"".toList = ["x = \"a\u2028b\"".toList]
      ∧ codeLines (normalize "x = \"a\u2028b\"".toList) = ["x = \"a".toList, "b\"".toList] := by
  decide

end MarkupTemplate.Host.Layout
