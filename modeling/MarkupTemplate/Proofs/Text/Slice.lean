import Mathlib.Data.List.Chain
import MarkupTemplate.Text.Lines

/-!
# Slices of a text

Which characters a slice of a text has, and what is left of it without the blanks at its ends.

* `slice_append`: a slice is cut at any offset in it.
* `flatMap_slice`: slices that touch make up one slice.
* `trim_slice`: blanks at the ends of a slice are cut off.
-/
namespace MarkupTemplate.Text

variable {s u : List Char} {a b lo hi : Nat} {c : Char}

theorem length_slice (h : b ≤ s.length) : (slice s a b).length = b - a := by
  rw [slice, List.length_take, List.length_drop]
  omega

theorem head?_slice (h : a < b) : (slice s a b).head? = s[a]? := by
  rw [slice, List.head?_take, if_neg (by omega), List.head?_drop]

theorem slice_append (h₁ : lo ≤ a) (h₂ : a ≤ hi) :
    slice s lo a ++ slice s a hi = slice s lo hi := by
  obtain ⟨m, rfl⟩ := Nat.exists_eq_add_of_le h₁
  obtain ⟨n, rfl⟩ := Nat.exists_eq_add_of_le h₂
  rw [slice, slice, slice, Nat.add_sub_cancel_left, Nat.add_sub_cancel_left, Nat.add_assoc,
    Nat.add_sub_cancel_left, List.take_add, List.drop_drop]

/-- Things that touch stand for the slice from the first to the last of them. -/
theorem flatMap_slice {α : Type} {pos stop : α → Nat} {xs : List α} {x z : α}
    (htouch : xs.IsChain fun x y => stop x = pos y) (hle : ∀ x ∈ xs, pos x ≤ stop x)
    (hx : xs.head? = some x) (hz : xs.getLast? = some z) :
    pos x ≤ stop z ∧ xs.flatMap (fun x => slice s (pos x) (stop x)) = slice s (pos x) (stop z) := by
  induction xs generalizing x with
  | nil => cases hx
  | cons y xs ih =>
    obtain rfl := Option.some.inj hx
    have hy := hle y List.mem_cons_self
    cases xs with
    | nil =>
      obtain rfl := Option.some.inj hz
      exact ⟨hy, by simp⟩
    | cons w xs =>
      obtain ⟨hyw, htouch⟩ := List.isChain_cons_cons.mp htouch
      rw [List.getLast?_cons_cons] at hz
      obtain ⟨hwz, hslice⟩ := ih htouch (fun x hx => hle x (List.mem_cons_of_mem y hx)) rfl hz
      rw [← hyw] at hwz hslice
      exact ⟨Nat.le_trans hy hwz, by rw [List.flatMap_cons, hslice, slice_append hy hwz]⟩

theorem take_append_slice (h : a ≤ b) : s.take a ++ slice s a b = s.take b := by
  obtain ⟨n, rfl⟩ := Nat.exists_eq_add_of_le h
  rw [slice, Nat.add_sub_cancel_left, List.take_add]

theorem take_slice (h₁ : lo ≤ a) (h₂ : a ≤ hi) : (slice s lo hi).take (a - lo) = slice s lo a := by
  rw [slice, slice, List.take_take, Nat.min_eq_left (by omega)]

/-- What is left of a slice without its first and its last character. -/
theorem slice_inside {d : Char} (hb : b ≤ s.length) (h : slice s a b = c :: (u ++ [d])) :
    slice s (a + 1) (b - 1) = u := by
  have hlen := congrArg List.length h
  rw [length_slice hb, List.length_cons, List.length_append, List.length_singleton] at hlen
  have hdrop : slice s (a + 1) (b - 1) = ((slice s a b).drop 1).take u.length := by
    rw [slice, slice, List.drop_take, List.take_take, List.drop_drop,
      Nat.min_eq_left (by omega)]
    congr 1
    omega
  rw [hdrop, h, List.drop_succ_cons, List.drop_zero, List.take_left]

theorem getLast?_slice (h : a < b) (hb : b ≤ s.length) :
    (slice s a b).getLast? = s[b - 1]? := by
  rw [List.getLast?_eq_getElem?, length_slice hb, slice, List.getElem?_take, if_pos (by omega),
    List.getElem?_drop]
  congr 1
  omega

theorem mem_slice (h : c ∈ slice s a b) : ∃ i, a ≤ i ∧ i < b ∧ s[i]? = some c := by
  obtain ⟨i, hi, he⟩ := List.getElem_of_mem h
  have hlen : i < b - a := by
    rw [slice, List.length_take] at hi
    omega
  refine ⟨a + i, by omega, by omega, ?_⟩
  rw [← List.getElem?_eq_some_iff.mpr ⟨hi, he⟩, slice, List.getElem?_take, if_pos hlen,
    List.getElem?_drop]

/-- Blanks around a text that has none at its ends are cut off. -/
theorem trim_append {v w : List Char} (hv : ∀ d ∈ v, isBlank d = true)
    (hw : ∀ d ∈ w, isBlank d = true) (hh : ∀ d ∈ u.head?, isBlank d = false)
    (hl : ∀ d ∈ u.getLast?, isBlank d = false) : trim (v ++ (u ++ w)) = u := by
  -- without blanks in front nothing is cut off there
  have hstop : ∀ {x : List Char}, (∀ d ∈ x.head?, isBlank d = false) → x.dropWhile isBlank = x := by
    intro x hx
    cases x with
    | nil => rfl
    | cons d x => rw [List.dropWhile_cons_of_neg (by simp [hx d rfl])]
  have hleft : trimLeft (v ++ (u ++ w)) = if u = [] then [] else u ++ w := by
    rw [trimLeft, List.dropWhile_append_of_pos hv]
    split
    · next he =>
      have : (w ++ []).dropWhile isBlank = [] := List.dropWhile_append_of_pos hw
      rw [he, List.nil_append, ← List.append_nil w, this]
    · next hne =>
      obtain ⟨d, u, rfl⟩ := List.exists_cons_of_ne_nil hne
      exact hstop (by simpa using hh)
  rw [trim, hleft, trimRight]
  split
  · next he => rw [he]; rfl
  · rw [List.reverse_append, List.dropWhile_append_of_pos (by simpa using hw),
      hstop (by simpa using hl), List.reverse_reverse]

/-- Of a slice that is blank around an inner slice, the inner slice is left. -/
theorem trim_slice (h₁ : lo ≤ a) (h₂ : a ≤ b) (h₃ : b ≤ hi)
    (hlo : ∀ i, lo ≤ i → i < a → ∃ d ∈ s[i]?, isBlank d = true)
    (hhi : ∀ i, b ≤ i → i < hi → ∃ d ∈ s[i]?, isBlank d = true)
    (hh : ∀ d ∈ (slice s a b).head?, isBlank d = false)
    (hl : ∀ d ∈ (slice s a b).getLast?, isBlank d = false) :
    trim (slice s lo hi) = slice s a b := by
  rw [← slice_append h₁ (Nat.le_trans h₂ h₃), ← slice_append h₂ h₃]
  refine trim_append (fun d hd => ?_) (fun d hd => ?_) hh hl
  · obtain ⟨i, h₁, h₂, hi⟩ := mem_slice hd
    obtain ⟨e, he, hb⟩ := hlo i h₁ h₂
    obtain rfl := Option.some.inj (hi.symm.trans he)
    exact hb
  · obtain ⟨i, h₁, h₂, hi⟩ := mem_slice hd
    obtain ⟨e, he, hb⟩ := hhi i h₁ h₂
    obtain rfl := Option.some.inj (hi.symm.trans he)
    exact hb

end MarkupTemplate.Text
