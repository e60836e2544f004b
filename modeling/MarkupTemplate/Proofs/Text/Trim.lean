import Mathlib.Data.List.TakeWhile
import MarkupTemplate.Proofs.Text.Slice

/-!
# Trimmed texts

A text is its trimmed text with blanks around it, so blanks that are put at its ends make no
difference to what it is trimmed to.

* `exists_eq_trim`: what is cut off on both sides.
* `trim_blank_append`, `trim_append_blank`: more blanks at the ends.
* `trim_eq_nil_iff`: of a blank text nothing is left.
-/
namespace MarkupTemplate.Text

variable {s v w : List Char}

/-- A text is its trimmed text, which has no blanks at its ends, between blanks. -/
theorem exists_eq_trim (s : List Char) : ∃ v w, s = v ++ (trim s ++ w)
    ∧ (∀ d ∈ v, isBlank d = true) ∧ (∀ d ∈ w, isBlank d = true)
    ∧ (∀ d ∈ (trim s).head?, isBlank d = false) ∧ ∀ d ∈ (trim s).getLast?, isBlank d = false := by
  have hleft := s.takeWhile_append_dropWhile (p := isBlank)
  have hright := congrArg List.reverse
    ((trimLeft s).reverse.takeWhile_append_dropWhile (p := isBlank))
  rw [List.reverse_append, List.reverse_reverse] at hright
  have hstart : ∀ {x : List Char}, ∀ d ∈ (x.dropWhile isBlank).head?, isBlank d = false := by
    intro x d hd
    have hne : x.dropWhile isBlank ≠ [] := by
      rintro hn
      rw [hn] at hd
      cases hd
    rw [List.head?_eq_some_head hne] at hd
    rw [← Option.some.inj hd]
    simpa using List.head_dropWhile_not isBlank hne
  refine ⟨s.takeWhile isBlank, ((trimLeft s).reverse.takeWhile isBlank).reverse, ?_,
    fun d hd => List.mem_takeWhile_imp hd,
    fun d hd => List.mem_takeWhile_imp (List.mem_reverse.mp hd), fun d hd => ?_, fun d hd => ?_⟩
  · rw [trim, trimRight, hright, trimLeft, hleft]
  · -- the trimmed text is a prefix of what is left behind the blanks in front
    refine hstart (x := s) d ?_
    rw [show s.dropWhile isBlank = trimLeft s from rfl, ← hright, List.head?_append,
      show (((trimLeft s).reverse.dropWhile isBlank).reverse).head? = some d from hd,
      Option.some_or]
    rfl
  · rw [trim, trimRight, List.getLast?_reverse] at hd
    exact hstart d hd

theorem trim_blank_append (hv : isAllBlank v = true) : trim (v ++ s) = trim s := by
  obtain ⟨a, b, hs, ha, hb, hh, hl⟩ := exists_eq_trim s
  conv_lhs => rw [hs, ← List.append_assoc]
  refine trim_append (fun d hd => ?_) hb hh hl
  exact (List.mem_append.mp hd).elim (List.all_eq_true.mp hv d) (ha d)

theorem trim_append_blank (hw : isAllBlank w = true) : trim (s ++ w) = trim s := by
  obtain ⟨a, b, hs, ha, hb, hh, hl⟩ := exists_eq_trim s
  conv_lhs => rw [hs, List.append_assoc, List.append_assoc]
  refine trim_append ha (fun d hd => ?_) hh hl
  exact (List.mem_append.mp hd).elim (hb d) (List.all_eq_true.mp hw d)

theorem trim_trim (s : List Char) : trim (trim s) = trim s := by
  obtain ⟨-, -, -, -, -, hh, hl⟩ := exists_eq_trim s
  simpa using trim_append (v := []) (w := []) (by simp) (by simp) hh hl

theorem trim_eq_nil_iff : trim s = [] ↔ isAllBlank s = true := by
  constructor
  · intro h
    obtain ⟨a, b, hs, ha, hb, -⟩ := exists_eq_trim s
    rw [h, List.nil_append] at hs
    rw [hs, isAllBlank, List.all_append, Bool.and_eq_true]
    exact ⟨List.all_eq_true.mpr ha, List.all_eq_true.mpr hb⟩
  · intro h
    rw [← List.append_nil s, trim_blank_append h]
    rfl

end MarkupTemplate.Text
