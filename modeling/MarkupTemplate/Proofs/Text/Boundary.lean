import MarkupTemplate.Atom.Scan

/-!
# Boundary characters

A boundary character goes on with no word and no number and opens no string literal. Where two
texts meet and one of the characters at the seam is a boundary, neither text is read differently
because of the other.

* `inRanges_disjoint`: a character lies in at most one of two lists of ranges that do not overlap.
* `isBoundary_of_isBlank`: every blank is a boundary.
* `Seam`: one of the characters at which two texts meet is a boundary.
-/
namespace MarkupTemplate.Text

/-- True of a character that no word, number or string literal contains at its ends. -/
def isBoundary (c : Char) : Bool :=
  !(Scan.isWordPart c || c == '.' || c == '+' || c == '-' || c == '"' || c == '\x27')

/-- One of the characters at which two texts meet, if there are two, is a boundary. -/
def Seam (a b : List Char) : Prop :=
  ∀ x ∈ a.getLast?, ∀ y ∈ b.head?, isBoundary x = true ∨ isBoundary y = true

theorem inRanges_disjoint {as bs : List (Nat × Nat)} {c : Char}
    (h : as.all (fun r => bs.all fun s => decide (r.2 < s.1) || decide (s.2 < r.1)) = true)
    (hc : inRanges as c = true) : inRanges bs c = false := by
  simp only [inRanges, List.any_eq_true, Bool.and_eq_true, decide_eq_true_eq] at hc
  obtain ⟨r, hr, h1, h2⟩ := hc
  simp only [List.all_eq_true] at h
  rw [← Bool.not_eq_true, inRanges, List.any_eq_true]
  rintro ⟨s, hs, hb⟩
  have hrs := h r hr s hs
  simp only [Bool.and_eq_true, Bool.or_eq_true, decide_eq_true_eq] at hb hrs
  omega

theorem isWordPart_of_isBlank {c : Char} (h : isBlank c = true) : Scan.isWordPart c = false := by
  have hl : inRanges letterRanges c = false := inRanges_disjoint (by decide) h
  have hd : inRanges decimalRanges c = false := inRanges_disjoint (by decide) h
  have ho : inRanges otherDigitRanges c = false := inRanges_disjoint (by decide) h
  have hn : inRanges numericRanges c = false := inRanges_disjoint (by decide) h
  have hu : c ≠ '_' := by rintro rfl; exact absurd h (by decide)
  simp [Scan.isWordPart, isWord, isLetter, isDigit, isDecimal, hl, hd, ho, hn, hu]

theorem isBoundary_of_isBlank {c : Char} (h : isBlank c = true) : isBoundary c = true := by
  have hw := isWordPart_of_isBlank h
  have hne : ∀ d : Char, isBlank d = false → c ≠ d := by
    rintro d hd rfl; rw [h] at hd; cases hd
  simp [isBoundary, hw, hne '.' (by decide), hne '+' (by decide),
    hne '-' (by decide), hne '"' (by decide), hne '\x27' (by decide)]

theorem isWordPart_of_isDigit {c : Char} (h : isDigit c = true) : Scan.isWordPart c = true := by
  simp [Scan.isWordPart, isWord, h]

theorem isWordPart_of_isBoundary {c : Char} (h : isBoundary c = true) :
    Scan.isWordPart c = false := by
  simp only [isBoundary, Bool.not_eq_true', Bool.or_eq_false_iff] at h
  exact h.1.1.1.1.1

theorem not_isBoundary_of_isWordPart {c : Char} (h : Scan.isWordPart c = true) :
    isBoundary c = false := by
  rw [← Bool.not_eq_true]
  intro hb
  rw [isWordPart_of_isBoundary hb] at h
  cases h

/-- The letters that mark a literal are word characters. -/
theorem isWordPart_of_isMark {c : Char} (h : Literal.isMark c = true) :
    Scan.isWordPart c = true := by
  have hall : ∀ d ∈ "rRbBfF".toList, Scan.isWordPart d = true :=
    List.all_eq_true.mp (by decide)
  exact hall c (by simpa [Literal.isMark] using h)

/-- A boundary character does not go on with a number. -/
theorem not_inNumber_of_isBoundary {c : Char} (h : isBoundary c = true) :
    (isWord c || c == '.' || c == '_') = false ∧ (c == '+' || c == '-') = false := by
  simp only [isBoundary, Scan.isWordPart, Bool.not_eq_true', Bool.or_eq_false_iff] at h
  obtain ⟨⟨⟨⟨⟨⟨hw, hu⟩, hd⟩, hp⟩, hm⟩, -⟩, -⟩ := h
  simp [hw, hu, hd, hp, hm]

/-! ## Seams -/

theorem Seam.nil_left (b : List Char) : Seam [] b := by simp [Seam]

theorem Seam.nil_right (a : List Char) : Seam a [] := by simp [Seam]

theorem Seam.of_head {a b : List Char} {c : Char} (h : isBoundary c = true) : Seam a (c :: b) := by
  intro x _ y hy
  simp only [List.head?_cons, Option.mem_def, Option.some.injEq] at hy
  exact .inr (hy ▸ h)

theorem Seam.of_last {a b : List Char} {c : Char} (h : isBoundary c = true) :
    Seam (a ++ [c]) b := by
  intro x hx y _
  simp only [List.getLast?_concat, Option.mem_def, Option.some.injEq] at hx
  exact .inl (hx ▸ h)

end MarkupTemplate.Text
