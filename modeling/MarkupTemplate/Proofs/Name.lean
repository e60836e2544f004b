import MarkupTemplate.Proofs.Piece

/-!
# Names as texts

A name without quotes is a text of its own: it opens with a word and ends in no punctuation.

* `PlainName`: a text that is read as a name without quotes, and as nothing more.
* `PlainName.tokens`: the tokens of a name.
-/
namespace MarkupTemplate

open Cursor Node

/-- The text is read as a name that is no string literal, and nothing is left of it. -/
def PlainName (n : String) : Prop :=
  ∃ c d, tokenize n.toList = .ok c ∧ c.head.kind ≠ .string ∧ readName c = .ok n d ∧ d.ahead = []

/-- One word is a name. -/
theorem plainName_p : PlainName "p" :=
  ⟨⟨"p".toList, 1, 0, [.flat .ident "p" 0 1]⟩, ⟨"p".toList, 1, 1, []⟩, by cbv, by decide, by cbv,
    rfl⟩

/-- A name that goes on to the end of the tokens ends in a segment. -/
theorem isSegment_of_nameLength {colon : Bool} {last : Nat} {ts : List Token}
    (h : nameLength colon last ts = ts.length) : ∀ u ∈ ts.getLast?, isSegment u = true := by
  fun_induction nameLength colon last ts with
  | case1 colon last sep seg ts hcond ih =>
    simp only [List.length_cons] at h
    intro u hu
    rw [List.getLast?_cons_cons] at hu
    cases ts with
    | nil =>
      obtain rfl := Option.some.inj hu
      simp only [Bool.and_eq_true] at hcond
      exact hcond.1.2
    | cons t ts =>
      rw [List.getLast?_cons_cons] at hu
      exact ih (by omega) u hu
  | case2 => simp at h
  | case3 => rw [List.length_eq_zero_iff.mp h.symm]; simp

namespace PlainName

variable {n : String}

theorem reads (h : PlainName n) : Scans n.toList ∧ (Cursor.ofText n.toList).head.kind ≠ .string
    ∧ ∃ d, readName (Cursor.ofText n.toList) = .ok n d ∧ d.ahead = [] := by
  obtain ⟨c, d, hc, hk, hd, hnil⟩ := h
  unfold tokenize at hc
  cases hs : scan n.toList 0 with
  | error f => rw [hs] at hc; cases hc
  | ok as =>
    rw [hs] at hc
    obtain rfl : Cursor.ofText n.toList = c := by
      rw [Cursor.ofText, tokensOf, atomsOf_of_scan hs]
      exact Except.ok.inj hc
    exact ⟨⟨as, hs⟩, hk, d, hd, hnil⟩

theorem scans (h : PlainName n) : Scans n.toList := h.reads.1

theorem yields (h : PlainName n) : Yields readName n.toList [n] := by
  obtain ⟨hs, -, d, hd, hnil⟩ := h.reads
  exact ⟨hs, d, .cons hd .nil, hnil⟩

/-- The tokens of a name: a word, and then separators and segments, the last one a segment. -/
theorem tokens (h : PlainName n) : ∃ t ts, tokensOf n.toList = t :: ts ∧ isNameStart t = true
    ∧ ∀ u ∈ (t :: ts).getLast?, isSegment u = true := by
  obtain ⟨-, hk, d, hd, hnil⟩ := h.reads
  obtain ⟨t, ts, htokens, ⟨hquoted, -, -⟩ | ⟨hstart, rfl, -⟩⟩ := Window.readName_eq_ok_iff.mp hd
  · rw [Window.head_of_ahead htokens] at hk
    exact absurd hquoted hk
  · rw [skip, htokens, List.drop_succ_cons, List.drop_eq_nil_iff] at hnil
    have hlen : nameLength true t.stop ts = ts.length :=
      Nat.le_antisymm (Window.nameLength_le _ _ _) hnil
    refine ⟨t, ts, htokens, hstart, fun u hu => ?_⟩
    cases ts with
    | nil =>
      obtain rfl := Option.some.inj hu
      simp [isSegment, hstart]
    | cons s ts =>
      rw [List.getLast?_cons_cons] at hu
      exact isSegment_of_nameLength hlen u hu

/-- The first atom of a name is a word. -/
theorem head_atom (h : PlainName n) : ∃ value pos stop as,
    atomsOf n.toList = .leaf .ident value pos stop :: as := by
  obtain ⟨t, ts, ht, hstart, -⟩ := h.tokens
  refine head_atom_of_word ht ?_
  simpa [isNameStart] using hstart

/-- The last atom of a name is no punctuation. -/
theorem last_atom (h : PlainName n) : ∀ a ∈ (atomsOf n.toList).getLast?,
    ∀ value pos stop, a ≠ .leaf .punct value pos stop := by
  rintro a ha value pos stop rfl
  obtain ⟨t, ts, ht, -, hlast⟩ := h.tokens
  obtain ⟨u, hu, hk⟩ := getLast_token_of_punct ha
  change (tokensOf n.toList).getLast? = some u at hu
  rw [ht] at hu
  have hseg := hlast u hu
  have hne : u.kind ≠ .ident ∧ u.kind ≠ .keyword ∧ u.kind ≠ .number := by
    rcases hk with hk | ⟨m, hm, hk⟩
    · rw [hk]; decide
    · rw [hk]; exact markers_kind m hm
  simp [isSegment, isNameStart, hne] at hseg

end PlainName

end MarkupTemplate
