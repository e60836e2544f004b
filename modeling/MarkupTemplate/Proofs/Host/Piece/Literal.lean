import MarkupTemplate.Proofs.Host.Piece.Signs

/-!
# Where a string literal ends

The cutting finds the end of a string literal where its body ends, whatever stands behind it. A
literal between single quotes that goes on behind a joined line is found in several steps.

* `Piece.closeLength?_body`: the end of a long literal.
* `Piece.lineEnd_body`: the end of a short one, or of its line.
* `Piece.stepAtLiteral_body`: the piece at the front of a literal.
-/
namespace MarkupTemplate.Host

variable {q : Char} {long : Bool} {body : List Char}

theorem ne_backslash_of_isQuote (hq : Piece.isQuote q = true) : q ≠ '\\' := by
  rintro rfl
  cases hq

theorem ne_lineFeed_of_isQuote (hq : Piece.isQuote q = true) : q ≠ '\n' := by
  rintro rfl
  cases hq

/-- The quotes stand at a place of a body and its end only if they do so whatever is behind them. -/
theorem not_prefix_append {w u : List Char} {n : Nat} (h : ¬ w <+: u) (hn : w.length ≤ n)
    (hu : n ≤ u.length) (s : List Char) : ¬ w.isPrefixOf (u ++ s) = true := by
  intro hw
  exact h (List.prefix_of_prefix_length_le (List.isPrefixOf_iff_prefix.mp hw)
    (List.prefix_append u s) (Nat.le_trans hn hu))

/-- A short literal does not start as a long one. -/
theorem not_prefix_short (hq : Piece.isQuote q = true) (hbody : Body q false body) {s : List Char}
    (hs : body = [] → s.head? ≠ some q) :
    ¬ [q, q, q].isPrefixOf (literalOf q false body ++ s) = true := by
  intro h
  obtain ⟨t, ht⟩ := List.isPrefixOf_iff_prefix.mp h
  cases hbody with
  | nil =>
    refine hs rfl ?_
    simp only [literalOf, quotesOf, Bool.false_eq_true, if_false] at ht
    cases s with
    | nil => simp at ht
    | cons c s => simp_all
  | plain _ hclose _ _ =>
    simp only [literalOf, quotesOf, Bool.false_eq_true, if_false] at ht hclose
    simp_all
  | hidden _ => simp_all [literalOf, quotesOf, ne_backslash_of_isQuote hq]
  | joined _ => simp_all [literalOf, quotesOf, ne_backslash_of_isQuote hq]

namespace Piece

theorem closeLength?_cons {c : Char} (hc : c ≠ '\\') (quotes s : List Char) :
    closeLength? quotes (c :: s) = if quotes.isPrefixOf (c :: s) then some quotes.length
      else (closeLength? quotes s).map (· + 1) := by
  rw [closeLength?]
  exact fun d rest he _ => hc he

/-- A long literal ends where its body does. -/
theorem closeLength?_body (hq : isQuote q = true) (hbody : Body q true body) (s : List Char) :
    closeLength? [q, q, q] (body ++ ([q, q, q] ++ s)) = some (body.length + 3) := by
  induction hbody with
  | nil =>
    rw [List.nil_append, List.cons_append, closeLength?_cons (ne_backslash_of_isQuote hq)]
    simp
  | @plain c body hc hclose _ _ ih =>
    have hno := not_prefix_append hclose (n := 3) (by simp [quotesOf]) (by simp [quotesOf]) s
    rw [List.cons_append, closeLength?_cons hc, if_neg (by simpa [quotesOf] using hno), ih]
    rfl
  | @hidden c body _ ih =>
    simp only [List.cons_append, closeLength?] at ih ⊢
    rw [ih]
    rfl
  | @joined body _ ih =>
    have hno : ¬ [q, q, q].isPrefixOf ('\n' :: (body ++ ([q, q, q] ++ s))) = true := by
      simp [ne_lineFeed_of_isQuote hq]
    rw [List.cons_append, List.cons_append, List.cons_append, closeLength?,
      closeLength?_cons (by decide), if_neg hno, ih]
    rfl

theorem lineEnd_cons {c : Char} (hc : c ≠ '\\') (taken : Nat) (s : List Char) :
    lineEnd q taken (c :: s) = if c == q then .closed (taken + 1)
      else if c == '\n' then .open (taken + 1) else lineEnd q (taken + 1) s := by
  rw [lineEnd]
  · exact fun rest he _ => hc he
  · exact fun rest he _ => hc he
  · exact fun d rest he _ => hc he

theorem lineEnd_hidden {c : Char} {s : List Char} (hc : c ≠ '\n')
    (hs : c = '\r' → s.head? ≠ some '\n') (taken : Nat) :
    lineEnd q taken ('\\' :: c :: s) = lineEnd q (taken + 2) s := by
  rw [lineEnd]
  · exact hc
  · rintro rest rfl rfl
    exact hs rfl rfl

/-- A short literal ends where its body does, or its line ends before, joined to the next one. -/
theorem lineEnd_body (hq : isQuote q = true) (hbody : Body q false body) (taken : Nat)
    (s : List Char) : lineEnd q taken (body ++ q :: s) = .closed (taken + body.length + 1)
      ∨ ∃ b₁ b₂, body = b₁ ++ b₂ ∧ b₁ ≠ [] ∧ Body q false b₂
        ∧ lineEnd q taken (body ++ q :: s) = .continued (taken + b₁.length) := by
  induction hbody generalizing taken with
  | nil =>
    rw [List.nil_append, lineEnd_cons (ne_backslash_of_isQuote hq), if_pos (beq_self_eq_true q)]
    exact .inl rfl
  | @plain c body hc hclose hline hbody ih =>
    have hquote : c ≠ q := by
      rintro rfl
      exact hclose (List.cons_prefix_cons.mpr ⟨rfl, List.nil_prefix⟩)
    have hfeed : c ≠ '\n' := (hline.resolve_left Bool.false_ne_true).1
    rw [List.cons_append, lineEnd_cons hc, if_neg (by simpa using hquote),
      if_neg (by simpa using hfeed)]
    obtain h | ⟨b₁, b₂, rfl, hne, hb₂, h⟩ := ih (taken + 1)
    · rw [h, List.length_cons]
      exact .inl (congrArg LineEnd.closed (by omega))
    · refine .inr ⟨c :: b₁, b₂, rfl, List.cons_ne_nil c b₁, hb₂, ?_⟩
      rw [h, List.length_cons]
      exact congrArg LineEnd.continued (by omega)
  | @hidden c body hbody ih =>
    by_cases hfeed : c = '\n'
    · subst hfeed
      exact .inr ⟨['\\', '\n'], body, rfl, by simp, hbody, rfl⟩
    have hhead : (body ++ q :: s).head? ≠ some '\n' := by
      cases hbody with
      | nil => simpa using ne_lineFeed_of_isQuote hq
      | plain _ _ hline _ => simpa using (hline.resolve_left Bool.false_ne_true).1
      | hidden _ => simp
      | joined _ => simp
    rw [List.cons_append, List.cons_append, lineEnd_hidden hfeed fun _ => hhead]
    obtain h | ⟨b₁, b₂, rfl, hne, hb₂, h⟩ := ih (taken + 2)
    · rw [h, List.length_cons, List.length_cons]
      exact .inl (congrArg LineEnd.closed (by omega))
    · refine .inr ⟨'\\' :: c :: b₁, b₂, rfl, List.cons_ne_nil _ _, hb₂, ?_⟩
      rw [h, List.length_cons, List.length_cons]
      exact congrArg LineEnd.continued (by omega)
  | @joined body hbody ih =>
    exact .inr ⟨['\\', '\r', '\n'], body, rfl, by simp, hbody, rfl⟩

/-- The step at a string literal takes all of it, or all of a short one up to a joined line. -/
theorem stepAtLiteral_body (hq : isQuote q = true) (hbody : Body q long body) {s : List Char}
    (hs : long = false → body = [] → s.head? ≠ some q) (st : State) (mark : Nat) :
    stepAtLiteral st mark q (literalOf q long body ++ s)
        = .piece .literal (mark + (literalOf q long body).length) .inLine st
      ∨ ∃ b₁ b₂, long = false ∧ body = b₁ ++ b₂ ∧ Body q false b₂
        ∧ stepAtLiteral st mark q (literalOf q long body ++ s)
          = .piece .literal (mark + (q :: b₁).length) (.inString q) st := by
  cases long with
  | true =>
    have htext : literalOf q true body ++ s = q :: q :: q :: (body ++ ([q, q, q] ++ s)) := by
      simp [literalOf, quotesOf]
    refine .inl ?_
    rw [htext, stepAtLiteral, if_pos (by simp)]
    simp only [List.drop_succ_cons, List.drop_zero, closeLength?_body hq hbody s]
    simp only [literalOf, quotesOf, if_true, List.length_append, List.length_cons, List.length_nil]
    exact congrArg (fun n => Step.piece _ n _ _) (by omega)
  | false =>
    have htext : literalOf q false body ++ s = q :: (body ++ q :: s) := by
      simp [literalOf, quotesOf]
    have hshort := not_prefix_short hq hbody (hs rfl)
    rw [htext] at hshort ⊢
    rw [stepAtLiteral, if_neg hshort, List.drop_succ_cons, List.drop_zero]
    obtain h | ⟨b₁, b₂, rfl, -, hb₂, h⟩ := lineEnd_body hq hbody 0 s
    · refine .inl ?_
      simp only [h, literalOf, quotesOf, Bool.false_eq_true, if_false, List.length_append,
        List.length_cons, List.length_nil]
      exact congrArg (fun n => Step.piece _ n _ _) (by omega)
    · refine .inr ⟨b₁, b₂, rfl, rfl, hb₂, ?_⟩
      simp only [h, List.length_cons]
      exact congrArg (fun n => Step.piece _ n _ _) (by omega)

end Piece

end MarkupTemplate.Host
