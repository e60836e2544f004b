import MarkupTemplate.Proofs.Host.Relaid
import MarkupTemplate.Proofs.Text.Lines

/-!
# Two layouts with unified line ends

The line ends of a text are in its gaps and inside its string literals, and no part of a layout ends
inside of one. So the line ends are unified in each part for itself, and two layouts are still two
layouts of one text.

* `unifyNewlines_literalOf`: the line ends in a string literal.
* `Relaid.getLast?_ne`: a layout does not end inside the end of a line.
* `Relaid.unifyNewlines`: two layouts are so also when their line ends are unified.
-/
namespace MarkupTemplate.Host

open Text (unifyNewlines unifyNewlines_cons unifyNewlines_cons_of_ne unifyNewlines_append
  unifyNewlines_ne_nil prefix_of_prefix_unifyNewlines)

theorem getLast?_append_ne {a b : List Char} {c : Char} (ha : a.getLast? ≠ some c)
    (hb : b.getLast? ≠ some c) : (a ++ b).getLast? ≠ some c := by
  rw [List.getLast?_append]
  cases hlast : b.getLast? with
  | none => exact ha
  | some d => rwa [hlast] at hb

theorem Gap.getLast?_ne {g : List Char} (h : Gap g) : g.getLast? ≠ some '\r' := by
  induction h with
  | nil => simp
  | @blank c g hc _ ih =>
    have hne : c ≠ '\r' := by rintro rfl; cases hc
    exact getLast?_append_ne (a := [c]) (by simpa using hne) ih
  | lineFeed _ ih => exact getLast?_append_ne (a := ['\n']) (by simp) ih
  | newline _ ih => exact getLast?_append_ne (a := ['\r', '\n']) (by simp) ih

theorem Gap.unifyNewlines {g : List Char} (h : Gap g) : Gap (unifyNewlines g) := by
  induction h with
  | nil => exact .nil
  | @blank c g hc _ ih =>
    have hne : c ≠ '\r' := by rintro rfl; cases hc
    rw [unifyNewlines_cons_of_ne hne]
    exact .blank hc ih
  | lineFeed _ ih => exact .lineFeed ih
  | newline _ ih => exact .lineFeed ih

theorem Bare.unifyNewlines {s : List Char} (h : Bare s) : Bare (unifyNewlines s) := by
  cases s with
  | nil => exact h
  | cons c s =>
    have hc : Text.isBlank c = false := h c rfl
    have hne : c ≠ '\r' := by rintro rfl; revert hc; decide
    rw [unifyNewlines_cons_of_ne hne]
    intro d hd
    cases hd
    exact hc

theorem not_mem_quotesOf {q c : Char} (hq : Piece.isQuote q = true) (hc : Piece.isQuote c = false)
    (long : Bool) : c ∉ quotesOf q long := by
  have hne : c ≠ q := by
    rintro rfl
    rw [hq] at hc
    cases hc
  cases long <;> simp [quotesOf, hne]

theorem unifyNewlines_quotesOf {q : Char} (hq : Piece.isQuote q = true) (long : Bool) :
    unifyNewlines (quotesOf q long) = quotesOf q long := by
  simp only [Piece.isQuote, Bool.or_eq_true, beq_iff_eq] at hq
  obtain rfl | rfl := hq <;> cases long <;> decide

theorem unifyNewlines_append_quotesOf {q : Char} (hq : Piece.isQuote q = true) (long : Bool)
    (s : List Char) :
    unifyNewlines (s ++ quotesOf q long) = unifyNewlines s ++ quotesOf q long := by
  rw [unifyNewlines_append, unifyNewlines_quotesOf hq]
  intro _ hhead
  exact not_mem_quotesOf hq (by decide) long (List.mem_of_head? hhead)

theorem Body.unifyNewlines {q : Char} (hq : Piece.isQuote q = true) {long : Bool}
    {body : List Char} (h : Body q long body) : Body q long (unifyNewlines body) := by
  induction h with
  | nil => exact .nil
  | @plain c body hc hclose hline hbody ih =>
    by_cases hend : c = '\r' ∧ body.head? = some '\n'
    · -- The line feed behind is the whole line end.
      obtain ⟨rfl, hhead⟩ := hend
      cases body with
      | nil => cases hhead
      | cons d body =>
        cases hhead
        exact ih
    · have hcons := unifyNewlines_cons fun hc hh => hend ⟨hc, hh⟩
      have hclose' : ¬ quotesOf q long <+: Text.unifyNewlines (c :: body) ++ quotesOf q long := by
        rw [← unifyNewlines_append_quotesOf hq]
        exact fun h => hclose (prefix_of_prefix_unifyNewlines (not_mem_quotesOf hq rfl long) h)
      rw [hcons] at hclose' ⊢
      refine .plain ?_ hclose' ?_ ih
      · split
        · decide
        · exact hc
      · refine hline.imp_right fun hne => ?_
        rw [if_neg (by simpa using hne.2)]
        exact hne
  | @hidden c body hbody ih =>
    rw [unifyNewlines_cons_of_ne (by decide)]
    by_cases hend : c = '\r' ∧ body.head? = some '\n'
    · obtain ⟨rfl, hhead⟩ := hend
      cases body with
      | nil => cases hhead
      | cons d body =>
        cases hhead
        cases ih with
        | plain _ _ _ hbody => exact .hidden hbody
    · rw [unifyNewlines_cons fun hc hh => hend ⟨hc, hh⟩]
      exact .hidden ih
  | joined hbody ih => exact .hidden ih

theorem getLast?_literalOf {q : Char} (hq : Piece.isQuote q = true) (long : Bool)
    (body : List Char) : (literalOf q long body).getLast? ≠ some '\r' := by
  have hquotes : (quotesOf q long).getLast? ≠ some '\r' := fun h =>
    not_mem_quotesOf hq rfl long (List.mem_of_getLast? h)
  rw [literalOf, ← List.append_assoc, List.getLast?_append]
  cases hlast : (quotesOf q long).getLast? with
  | none => cases long <;> cases hlast
  | some d => rwa [hlast] at hquotes

theorem unifyNewlines_literalOf {q : Char} (hq : Piece.isQuote q = true) (long : Bool)
    (body s : List Char) : unifyNewlines (literalOf q long body ++ s)
      = literalOf q long (unifyNewlines body) ++ unifyNewlines s := by
  have hfront : unifyNewlines (quotesOf q long ++ (body ++ quotesOf q long))
      = quotesOf q long ++ unifyNewlines (body ++ quotesOf q long) := by
    rw [unifyNewlines_append, unifyNewlines_quotesOf hq]
    exact fun h => absurd (List.mem_of_getLast? h) (not_mem_quotesOf hq rfl long)
  rw [unifyNewlines_append fun h => absurd h (getLast?_literalOf hq long body), literalOf, hfront,
    unifyNewlines_append_quotesOf hq, literalOf]

namespace Relaid

variable {k k' : List Bracket} {s s' : List Char}

/-- A layout does not end inside the end of a line. -/
theorem getLast?_ne (h : Relaid k k' s s') : s.getLast? ≠ some '\r' := by
  induction h with
  | nil k => simp
  | @sign _ _ c _ _ hc _ ih =>
    have hne : c ≠ '\r' := ne_of_isSign hc (by decide)
    exact getLast?_append_ne (a := [c]) (by simpa using hne) ih
  | @opener _ _ b _ _ _ ih =>
    exact getLast?_append_ne (a := [b.opener]) (by cases b <;> decide) ih
  | @closer _ _ b _ _ _ ih =>
    exact getLast?_append_ne (a := [b.closer]) (by cases b <;> decide) ih
  | literal hq _ _ _ ih => exact getLast?_append_ne (getLast?_literalOf hq _ _) ih
  | gap hg _ _ _ _ _ _ ih => exact getLast?_append_ne hg.getLast?_ne ih

theorem head?_unifyNewlines_ne {q : Char} (hq : Piece.isQuote q = true) {s : List Char}
    (h : s.head? ≠ some q) : (unifyNewlines s).head? ≠ some q := by
  intro hhead
  have hfront : [q] <+: unifyNewlines s := by
    obtain ⟨t, ht⟩ := List.head?_eq_some_iff.mp hhead
    exact ⟨t, ht.symm⟩
  obtain ⟨t, rfl⟩ := prefix_of_prefix_unifyNewlines
    (fun hm => by rw [← List.mem_singleton.mp hm] at hq; cases hq) hfront
  exact h rfl

protected theorem unifyNewlines (h : Relaid k k' s s') :
    Relaid k k' (unifyNewlines s) (unifyNewlines s') := by
  have hopener (b : Bracket) : b.opener ≠ '\r' := by cases b <;> decide
  have hcloser (b : Bracket) : b.closer ≠ '\r' := by cases b <;> decide
  induction h with
  | nil k => exact .nil k
  | sign hc _ ih =>
    have hne := ne_of_isSign hc (d := '\r') (by decide)
    rw [unifyNewlines_cons_of_ne hne, unifyNewlines_cons_of_ne hne]
    exact .sign hc ih
  | @opener _ _ b _ _ _ ih =>
    rw [unifyNewlines_cons_of_ne (hopener b), unifyNewlines_cons_of_ne (hopener b)]
    exact .opener ih
  | @closer _ _ b _ _ _ ih =>
    rw [unifyNewlines_cons_of_ne (hcloser b), unifyNewlines_cons_of_ne (hcloser b)]
    exact .closer ih
  | literal hq hbody hs _ ih =>
    rw [unifyNewlines_literalOf hq, unifyNewlines_literalOf hq]
    refine .literal hq (hbody.unifyNewlines hq) (fun hl hb => ?_) ih
    have hempty := Decidable.not_not.mp (mt unifyNewlines_ne_nil (not_not_intro hb))
    obtain ⟨hfront, hfront'⟩ := hs hl hempty
    exact ⟨head?_unifyNewlines_ne hq hfront, head?_unifyNewlines_ne hq hfront'⟩
  | gap hg hg' hne hne' hs hs' _ ih =>
    rw [unifyNewlines_append fun h => absurd h hg.getLast?_ne,
      unifyNewlines_append fun h => absurd h hg'.getLast?_ne]
    exact .gap hg.unifyNewlines hg'.unifyNewlines (unifyNewlines_ne_nil hne)
      (unifyNewlines_ne_nil hne') hs.unifyNewlines hs'.unifyNewlines ih

end Relaid

end MarkupTemplate.Host
