import MarkupTemplate.Proofs.Host.Lexeme.Signs
import MarkupTemplate.Proofs.Host.Piece.Literal

/-!
# The lexemes of two layouts

Inside brackets line ends and indentation do not count. So the lexemes of a text that stands there
are the same in every layout of it.

* `Lexeme.string?_literal`: a string literal, whatever stands behind it.
* `Lexeme.LexedAlike`: two texts with the same lexemes inside brackets.
* `Lexeme.lexedAlike_of_relaid`: two layouts are such texts.
-/
namespace MarkupTemplate.Host.Lexeme

open Piece (isQuote)

/-! ## Literals -/

section

variable {q : Char} {long : Bool} {body : List Char}

theorem bodyLength?_cons {c : Char} (hc : c ≠ '\\') (quotes s : List Char) :
    bodyLength? quotes (c :: s) = if quotes.isPrefixOf (c :: s) then some 0
      else if c == '\n' && quotes.length = 1 then none else (bodyLength? quotes s).map (· + 1) := by
  rw [bodyLength?]
  exact fun d rest he _ => hc he

/-- A literal ends where its body does. -/
theorem bodyLength?_body (hq : isQuote q = true) (hbody : Body q long body) (hcr : '\r' ∉ body)
    (s : List Char) :
    bodyLength? (quotesOf q long) (body ++ (quotesOf q long ++ s)) = some body.length := by
  induction hbody with
  | nil =>
    obtain ⟨rest, hrest⟩ : ∃ rest, quotesOf q long ++ s = q :: rest := by
      cases long <;> exact ⟨_, rfl⟩
    rw [List.nil_append, hrest, bodyLength?_cons (ne_backslash_of_isQuote hq), ← hrest,
      if_pos (List.isPrefixOf_iff_prefix.mpr (List.prefix_append _ _))]
    rfl
  | @plain c body hc hclose hline _ ih =>
    have hno := not_prefix_append hclose (n := (quotesOf q long).length) (Nat.le_refl _)
      (by simp only [List.length_cons, List.length_append]; omega) s
    have hopen : ¬ (c == '\n' && (quotesOf q long).length = 1) = true := by
      obtain rfl | ⟨hfeed, -⟩ := hline
      · simp [quotesOf]
      · simp [hfeed]
    rw [List.cons_append, List.append_assoc] at hno
    rw [List.cons_append, bodyLength?_cons hc, if_neg hno, if_neg hopen,
      ih (not_or.mp (mt List.mem_cons.mpr hcr)).2]
    rfl
  | @hidden c body _ ih =>
    simp only [List.cons_append, bodyLength?, ih (by simp_all)]
    rfl
  | joined => simp at hcr

theorem string?_literal (hq : isQuote q = true) (hbody : Body q long body) (hcr : '\r' ∉ body)
    {s : List Char} (hs : long = false → body = [] → s.head? ≠ some q) (formatted raw : Bool) :
    string? formatted raw q (literalOf q long body ++ s)
      = some (.string formatted raw body, s) := by
  have hquotes : (if [q, q, q].isPrefixOf (literalOf q long body ++ s) then [q, q, q] else [q])
      = quotesOf q long := by
    cases long with
    | true => rw [if_pos (by simp [literalOf, quotesOf]), quotesOf, if_pos rfl]
    | false => rw [if_neg (not_prefix_short hq hbody (hs rfl)), quotesOf, if_neg Bool.false_ne_true]
  have hinside : (literalOf q long body ++ s).drop (quotesOf q long).length
      = body ++ (quotesOf q long ++ s) := by
    rw [literalOf, List.append_assoc, List.append_assoc, List.drop_left]
  simp only [string?, hquotes, hinside, bodyLength?_body hq hbody hcr, Option.map_some,
    List.take_left]
  rw [← List.drop_drop, List.drop_left, List.drop_left]

/-- The step at a string literal and at the letters that mark it. -/
theorem exists_step?_literal {u : List Char} (hq : isQuote q = true)
    (hu : ∀ c ∈ u, isSign c = true) (hmarks : u = [] ∨ marked? u ≠ none)
    (hbody : Body q long body) (hcr : '\r' ∉ body) :
    ∃ formatted raw, ∀ st s, (long = false → body = [] → s.head? ≠ some q) →
      step? st (u ++ (literalOf q long body ++ s))
        = some (.string formatted raw body, st, s) := by
  have hliteral (s : List Char) : ∃ rest, literalOf q long body ++ s = q :: rest :=
    List.head?_eq_some_iff.mp (head?_literalOf q long body s)
  cases u with
  | nil =>
    refine ⟨false, false, fun st s hs => ?_⟩
    have hstring := string?_literal hq hbody hcr hs false false
    obtain ⟨rest, hrest⟩ := hliteral s
    rw [List.nil_append]
    rw [hrest] at hstring ⊢
    rw [step?, ← isQuote, hq, if_pos rfl, hstring]
    rfl
  | cons c w =>
    have hmark := hmarks.resolve_left (List.cons_ne_nil c w)
    unfold marked? at hmark
    by_cases hword : Text.isIdentifier (c :: w) = true
    · rw [if_pos hword] at hmark
      obtain ⟨⟨formatted, raw⟩, hmark⟩ := Option.ne_none_iff_exists'.mp hmark
      refine ⟨formatted, raw, fun st s hs => ?_⟩
      simp only [Text.isIdentifier, Bool.and_eq_true, List.all_eq_true] at hword
      obtain ⟨hstart, hparts⟩ := hword
      replace hparts : ∀ d ∈ w, isNamePart d = true := hparts
      have hquote : (c == '"' || c == '\x27') = false :=
        isQuote_of_isSign (hu c List.mem_cons_self)
      have hstop : Stops (literalOf q long body ++ s) := .literal hq long body s
      have htake : (w ++ (literalOf q long body ++ s)).takeWhile isNamePart = w := by
        rw [takeWhile_append_stop hstop (by decide)]
        exact List.takeWhile_eq_self_iff.mpr hparts
      have hdrop : (w ++ (literalOf q long body ++ s)).dropWhile isNamePart
          = literalOf q long body ++ s := by
        rw [dropWhile_append_stop hstop (by decide), List.dropWhile_eq_nil_iff.mpr hparts,
          List.nil_append]
      rw [List.cons_append, step?, hquote, if_neg Bool.false_ne_true, if_pos hstart, htake, hdrop,
        stepAtWord?, head?_literalOf, hmark]
      dsimp only
      rw [← isQuote, hq, if_pos rfl, string?_literal hq hbody hcr hs]
      rfl
    · rw [if_neg hword] at hmark
      exact absurd rfl hmark

end

/-! ## Two layouts -/

section

variable {outer : Char} {closers : List Char} {indents : List Indent} {y y' : List Char}

/-- Two texts inside brackets, of which `k` are open, have the same lexemes if those behind them do
so. -/
def LexedAlike (outer : Char) (closers : List Char) (indents : List Indent) (y y' : List Char)
    (k : List Bracket) (s s' : List Char) : Prop :=
  lexemesAt ⟨k.map Bracket.closer ++ outer :: closers, indents, false⟩ (s ++ '\n' :: y)
    = lexemesAt ⟨k.map Bracket.closer ++ outer :: closers, indents, false⟩ (s' ++ '\n' :: y')

variable {k : List Bracket} {s s' : List Char}

theorem LexedAlike.opener {b : Bracket} (h : LexedAlike outer closers indents y y' (b :: k) s s') :
    LexedAlike outer closers indents y y' k (b.opener :: s) (b.opener :: s') := by
  unfold LexedAlike at h ⊢
  rw [List.cons_append, List.cons_append, lexemesAt_opener, lexemesAt_opener]
  exact congrArg (Option.map _) h

theorem LexedAlike.closer {b : Bracket} (h : LexedAlike outer closers indents y y' k s s') :
    LexedAlike outer closers indents y y' (b :: k) (b.closer :: s) (b.closer :: s') := by
  unfold LexedAlike at h ⊢
  rw [List.map_cons, List.cons_append, List.cons_append, List.cons_append, lexemesAt_closer,
    lexemesAt_closer, h]

/-- Inside brackets a gap counts for nothing. -/
theorem lexemesAt_append_gap {g : List Char} (hg : Gap g) (hcr : '\r' ∉ g) (k : List Bracket)
    (s : List Char) :
    lexemesAt ⟨k.map Bracket.closer ++ outer :: closers, indents, false⟩ (g ++ s)
      = lexemesAt ⟨k.map Bracket.closer ++ outer :: closers, indents, false⟩ s := by
  induction hg with
  | nil => rfl
  | blank hc _ ih =>
    simp only [Piece.isGap, Bool.or_eq_true, beq_iff_eq, or_assoc] at hc
    rw [List.cons_append, lexemesAt_gap hc, ih (not_or.mp (mt List.mem_cons.mpr hcr)).2]
  | lineFeed _ ih =>
    rw [← ih (not_or.mp (mt List.mem_cons.mpr hcr)).2, List.cons_append]
    cases k with
    | nil => exact lexemesAt_lineFeed _ _
    | cons b k => exact lexemesAt_lineFeed _ _
  | newline => simp at hcr

theorem LexedAlike.gap {g g' : List Char} (hg : Gap g) (hg' : Gap g') (hcr : '\r' ∉ g)
    (hcr' : '\r' ∉ g') (h : LexedAlike outer closers indents y y' k s s') :
    LexedAlike outer closers indents y y' k (g ++ s) (g' ++ s') := by
  unfold LexedAlike at h ⊢
  rw [List.append_assoc, List.append_assoc, lexemesAt_append_gap hg hcr,
    lexemesAt_append_gap hg' hcr', h]

theorem opensLexeme_of_isSign {c : Char} (h : isSign c = true) : opensLexeme c = true := by
  obtain ⟨hstops, -, hcomment, hjoin⟩ := isSign_iff.mp h
  have hne {d : Char} (hd : d ∈ stops) : c ≠ d := ne_of_isSign h hd
  simp [opensLexeme, hcomment, hjoin, hne (d := ' ') (by decide), hne (d := '\t') (by decide),
    hne (d := '\x0c') (by decide), hne (d := '\n') (by decide)]

theorem opensLexeme_of_isQuote {q : Char} (h : isQuote q = true) : opensLexeme q = true := by
  simp only [isQuote, Bool.or_eq_true, beq_iff_eq] at h
  obtain rfl | rfl := h <;> decide

/-- What stands in front of the line feed behind a text is not changed by it. -/
theorem head?_append_lineFeed {q : Char} (hq : isQuote q = true) (hs : s.head? ≠ some q)
    (y : List Char) : (s ++ '\n' :: y).head? ≠ some q := by
  cases s with
  | nil => simpa using (ne_lineFeed_of_isQuote hq).symm
  | cons c s => exact hs

theorem LexedAlike.literal {u : List Char} {q : Char} {long : Bool} {body : List Char}
    (hu : ∀ c ∈ u, isSign c = true) (hmarks : u = [] ∨ marked? u ≠ none)
    (hq : isQuote q = true) (hbody : Body q long body) (hcr : '\r' ∉ body)
    (hs : long = false → body = [] → s.head? ≠ some q ∧ s'.head? ≠ some q)
    (h : LexedAlike outer closers indents y y' k s s') :
    LexedAlike outer closers indents y y' k (u ++ (literalOf q long body ++ s))
      (u ++ (literalOf q long body ++ s')) := by
  obtain ⟨formatted, raw, hstep⟩ := exists_step?_literal hq hu hmarks hbody hcr
  have hopens (s : List Char) :
      (u ++ (literalOf q long body ++ s)).head?.any opensLexeme = true := by
    cases u with
    | nil =>
      rw [List.nil_append, head?_literalOf]
      exact opensLexeme_of_isQuote hq
    | cons c u => exact opensLexeme_of_isSign (hu c List.mem_cons_self)
  have hpass (s y : List Char) (hs : long = false → body = [] → s.head? ≠ some q) :
      lexemesAt ⟨k.map Bracket.closer ++ outer :: closers, indents, false⟩
          (u ++ (literalOf q long body ++ s) ++ '\n' :: y)
        = (lexemesAt ⟨k.map Bracket.closer ++ outer :: closers, indents, false⟩
          (s ++ '\n' :: y)).map (.string formatted raw body :: ·) := by
    rw [List.append_assoc, List.append_assoc, lexemesAt_step? (hopens _), hstep]
    · rfl
    · exact fun hl hb => head?_append_lineFeed hq (hs hl hb) y
  unfold LexedAlike at h ⊢
  rw [hpass s y fun hl hb => (hs hl hb).1, hpass s' y' fun hl hb => (hs hl hb).2, h]

theorem filter_head?_append_lineFeed {t : List Char} (ht : t.head?.filter isQuote = none)
    (y : List Char) : (t ++ '\n' :: y).head?.filter isQuote = none := by
  cases t with
  | nil => rfl
  | cons c t => exact ht

/-- The next lexeme of a run of signs, in both layouts. -/
theorem LexedAlike.signs {u t t' : List Char} (hu : ∀ c ∈ u, isSign c = true) (hne : u ≠ [])
    (hstop : Stops t) (hstop' : Stops t')
    (hmark : marked? u ≠ none → t.head?.filter isQuote = none)
    (hmark' : marked? u ≠ none → t'.head?.filter isQuote = none)
    (hrest : ∀ v, v <:+ u → v.length < u.length →
      LexedAlike outer closers indents y y' k (v ++ t) (v ++ t')) :
    LexedAlike outer closers indents y y' k (u ++ t) (u ++ t') := by
  have hopens (s : List Char) : (u ++ s).head?.any opensLexeme = true := by
    cases u with
    | nil => exact absurd rfl hne
    | cons c u => exact opensLexeme_of_isSign (hu c List.mem_cons_self)
  have hstep := step?_signs (hstop.append_lineFeed y) hu hne
    (fun hm => filter_head?_append_lineFeed (hmark hm) y)
  have hstep' := step?_signs (hstop'.append_lineFeed y') hu hne
    (fun hm => filter_head?_append_lineFeed (hmark' hm) y')
  unfold LexedAlike at hrest ⊢
  rw [List.append_assoc, List.append_assoc, lexemesAt_step? (hopens _), lexemesAt_step? (hopens _),
    hstep, hstep']
  cases hr : stepInRun? u with
  | none => rfl
  | some r =>
    obtain ⟨x, v⟩ := r
    have hv := hrest v (suffix_stepInRun? hr) (length_stepInRun?_lt hu hne hr)
    rw [List.append_assoc, List.append_assoc] at hv
    exact congrArg (Option.map _) hv

/-- Two layouts have the same lexemes inside brackets. -/
theorem lexedAlike_of_relaid (h : Relaid k [] s s') (hcr : '\r' ∉ s) (hcr' : '\r' ∉ s')
    (hend : LexedAlike outer closers indents y y' [] [] []) :
    LexedAlike outer closers indents y y' k s s' := by
  have htail {c : Char} {s : List Char} (hs : '\r' ∉ c :: s) : '\r' ∉ s :=
    mt (List.mem_cons_of_mem c) hs
  have hright {a b : List Char} (hs : '\r' ∉ a ++ b) : '\r' ∉ b := mt (List.mem_append_right a) hs
  have hleft {a b : List Char} (hs : '\r' ∉ a ++ b) : '\r' ∉ a := mt (List.mem_append_left b) hs
  refine h.inductionOnTokens (P := fun k s s' => '\r' ∉ s → '\r' ∉ s' →
    LexedAlike outer closers indents y y' k s s') (fun u => marked? u ≠ none)
    ?nil ?opener ?closer ?literal ?gap ?signs hcr hcr'
  case nil => exact fun _ _ => hend
  case opener => exact fun ih hs hs' => (ih (htail hs) (htail hs')).opener
  case closer => exact fun ih hs hs' => (ih (htail hs) (htail hs')).closer
  case literal =>
    intro k u q long body s s' hu hmarks hq hbody hclose ih hs hs'
    have hbody' : '\r' ∉ body := hleft (hright (hleft (hright hs)))
    exact .literal hu hmarks hq hbody hbody' hclose (ih (hright (hright hs)) (hright (hright hs')))
  case gap =>
    intro k g g' s s' hg hg' _ _ _ _ _ ih hs hs'
    exact .gap hg hg' (hleft hs) (hleft hs') (ih (hright hs) (hright hs'))
  case signs =>
    intro k u t t' hu hne _ hstop hstop' hmark hmark' ih hs hs'
    have hsigns : '\r' ∉ u := hleft hs
    refine .signs hu hne hstop hstop' hmark hmark' fun v hv hlt => ih v hv hlt ?_ ?_
    · exact fun hm => (List.mem_append.mp hm).elim (mt (hv.subset ·) hsigns) (hright hs)
    · exact fun hm => (List.mem_append.mp hm).elim (mt (hv.subset ·) hsigns) (hright hs')

end

end MarkupTemplate.Host.Lexeme
