import MarkupTemplate.Location
import MarkupTemplate.Text.Quoted

/-!
# Texts on one line

A text that is put together from parts without line feeds has none. Whatever is quoted has none, and
neither has a number or a place.

* `OneLine`: a text without line feeds.
* `oneLine_quote`: the quoted form of any text.
* `Location.oneLine_describe`: the words about a place.
-/
namespace MarkupTemplate.Text

/-- A text without line feeds. -/
def OneLine (s : String) : Prop := '\n' ∉ s.toList

instance : DecidablePred OneLine := fun s => inferInstanceAs (Decidable ('\n' ∉ s.toList))

@[simp] theorem oneLine_append (a b : String) : OneLine (a ++ b) ↔ OneLine a ∧ OneLine b := by
  simp [OneLine]

@[simp] theorem oneLine_ofList (s : List Char) : OneLine (String.ofList s) ↔ '\n' ∉ s := by
  simp [OneLine]

/-- Cutting blanks off the end breaks no line. -/
theorem not_mem_trimRight {c : Char} {s : List Char} (h : c ∉ s) : c ∉ trimRight s :=
  fun hm => h (List.mem_reverse.mp ((List.dropWhile_sublist _).subset (List.mem_reverse.mp hm)))

/-! ## Numbers -/

theorem digitChar_ne_newline (n : Nat) : n.digitChar ≠ '\n' := by
  by_cases h : n < 16
  · revert n
    decide
  · rw [Nat.digitChar]
    repeat rw [if_neg (by omega)]
    decide

theorem not_mem_toDigitsCore (base fuel n : Nat) {s : List Char} (h : '\n' ∉ s) :
    '\n' ∉ Nat.toDigitsCore base fuel n s := by
  induction fuel generalizing n s with
  | zero => exact h
  | succ fuel ih =>
    have hcons : '\n' ∉ (n % base).digitChar :: s :=
      fun hm => (List.mem_cons.mp hm).elim (fun he => digitChar_ne_newline _ he.symm) h
    rw [Nat.toDigitsCore]
    split
    · exact hcons
    · exact ih _ hcons

theorem not_mem_toDigits (base n : Nat) : '\n' ∉ Nat.toDigits base n :=
  not_mem_toDigitsCore base (n + 1) n List.not_mem_nil

@[simp] theorem oneLine_toString_nat (n : Nat) : OneLine (toString n) :=
  (oneLine_ofList _).mpr (not_mem_toDigits 10 n)

@[simp] theorem oneLine_toString_int (n : Int) : OneLine (toString n) := by
  cases n with
  | ofNat n => exact oneLine_toString_nat n
  | negSucc n => exact (oneLine_append "-" _).mpr ⟨by decide, oneLine_toString_nat (n + 1)⟩

/-! ## Quoted texts -/

theorem not_mem_codeEscape (c : Char) : '\n' ∉ codeEscape c := by
  have hhex : ∀ {mark : Char} (width n : Nat), mark ≠ '\n' → '\n' ∉ hexEscape mark width n := by
    intro mark width n hmark hm
    rw [hexEscape, padLeft, List.mem_cons, List.mem_cons, List.mem_append] at hm
    rcases hm with hm | hm | hm | hm
    · exact absurd hm (by decide)
    · exact hmark hm.symm
    · exact absurd (List.eq_of_mem_replicate hm) (by decide)
    · exact not_mem_toDigits 16 n hm
  unfold codeEscape
  split
  · exact hhex 2 _ (by decide)
  · split
    · exact hhex 4 _ (by decide)
    · exact hhex 8 _ (by decide)

theorem not_mem_quoteChar {q : Char} (hq : q ≠ '\n') (c : Char) : '\n' ∉ quoteChar q c := by
  unfold quoteChar
  split
  · next h =>
    have hc : c ≠ '\n' := by
      rintro rfl
      simp only [Bool.or_eq_true, beq_iff_eq] at h
      exact h.elim (fun h => hq h.symm) (by decide)
    simpa using hc.symm
  split
  · decide
  · next hc =>
    split
    · decide
    split
    · decide
    split
    · rw [beq_iff_eq] at hc
      exact fun hm => hc (List.mem_singleton.mp hm).symm
    · exact not_mem_codeEscape c

theorem quoteFor_ne_newline (s : List Char) : quoteFor s ≠ '\n' := by
  unfold quoteFor
  split <;> decide

theorem not_mem_quoteChars (s : List Char) : '\n' ∉ quoteChars s := by
  have hq := quoteFor_ne_newline s
  rw [quoteChars, List.mem_cons, List.mem_append, List.mem_flatMap, List.mem_singleton]
  rintro (hm | ⟨c, -, hm⟩ | hm)
  · exact hq hm.symm
  · exact not_mem_quoteChar hq c hm
  · exact hq hm.symm

/-- Quoting writes line feeds as escapes. -/
@[simp] theorem oneLine_quote (s : String) : OneLine (quote s) :=
  (oneLine_ofList _).mpr (not_mem_quoteChars _)

end MarkupTemplate.Text

namespace MarkupTemplate.Location

@[simp] theorem oneLine_describe (source : List Char) (pos : Int) :
    Text.OneLine (describe source pos) := by
  simp only [describe, Text.oneLine_append, Text.oneLine_toString_nat, Text.oneLine_toString_int]
  decide

end MarkupTemplate.Location
