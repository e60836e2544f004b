import MarkupTemplate.Atom
import MarkupTemplate.Host.Guard.Piece
import MarkupTemplate.Text.Lines

/-!
# The same text laid out differently

Between its tokens a text has gaps: runs of blanks and line ends. Two texts are laid out differently
if they are the same but for their gaps, each of which is a gap in the other. A text of this form
has no comments and no joined lines outside its string literals, and its brackets nest.

* `stops`: the characters at which names, numbers and operators end.
* `Body`: what may stand between the quotes of a string literal.
* `Relaid`: two layouts of one text.
* `Relaid.inductionOnTokens`: induction along the tokens of two layouts.
-/
namespace MarkupTemplate.Host

/-! ## Characters -/

/-- The characters at which names, numbers and operators end: blanks, line ends, quotes and
brackets. -/
def stops : List Char :=
  [' ', '\t', '\x0c', '\n', '\r', '"', '\x27', '(', ')', '[', ']', '\x7b', '\x7d']

/-- The text is empty or starts with a character at which names, numbers and operators end. -/
def Stops (s : List Char) : Prop := ∀ c ∈ s.head?, c ∈ stops

/-- The text is empty or starts with a character that is no blank. -/
def Bare (s : List Char) : Prop := ∀ c ∈ s.head?, Text.isBlank c = false

/-- True of a character of a name, a number or an operator. -/
def isSign (c : Char) : Bool := !(stops.contains c || Text.isBlank c || c == '#' || c == '\\')

theorem isSign_iff {c : Char} :
    isSign c = true ↔ c ∉ stops ∧ Text.isBlank c = false ∧ c ≠ '#' ∧ c ≠ '\\' := by
  simp [isSign, and_assoc]

theorem ne_of_isSign {c d : Char} (h : isSign c = true) (hd : d ∈ stops) : c ≠ d := by
  rintro rfl
  exact (isSign_iff.mp h).1 hd

theorem isQuote_of_isSign {c : Char} (h : isSign c = true) : Piece.isQuote c = false := by
  have := ne_of_isSign h (d := '"') (by decide)
  have := ne_of_isSign h (d := '\x27') (by decide)
  simp [Piece.isQuote, *]

theorem Stops.nil : Stops [] := fun _ h => by cases h

theorem Stops.cons {c : Char} (h : c ∈ stops) (s : List Char) : Stops (c :: s) := by
  intro d hd
  cases hd
  exact h

theorem Stops.ne {c d : Char} {s : List Char} (h : Stops (c :: s)) (hd : d ∉ stops) : c ≠ d := by
  rintro rfl
  exact hd (h c rfl)

theorem Stops.append_lineFeed {t : List Char} (ht : Stops t) (y : List Char) :
    Stops (t ++ '\n' :: y) := by
  cases t with
  | nil => exact .cons (by decide) y
  | cons c t => exact .cons (ht c rfl) _

theorem Stops.not {s : List Char} (h : Stops s) {p : Char → Bool} (hp : stops.any p = false) :
    ∀ c ∈ s.head?, p c = false := by
  intro c hc
  rw [List.any_eq_false] at hp
  simpa using hp c (h c hc)

section

variable {t : List Char}

/-- What stands behind a run does not change how it starts. -/
theorem head?_append_stop {d : Char} (ht : Stops t) (hd : d ∉ stops) (u : List Char) :
    ((u ++ t).head? == some d) = (u.head? == some d) := by
  cases u with
  | nil => exact beq_eq_false_iff_ne.mpr fun h => hd (ht d h)
  | cons c u => rfl

theorem isPrefixOf_append_stop {w : List Char} (ht : Stops t) (hw : w.any stops.contains = false)
    (u : List Char) : w.isPrefixOf (u ++ t) = w.isPrefixOf u := by
  induction w generalizing u with
  | nil => rw [List.isPrefixOf_nil_left, List.isPrefixOf_nil_left]
  | cons d w ih =>
    obtain ⟨hd, hw⟩ := Bool.or_eq_false_iff.mp hw
    cases u with
    | nil =>
      cases t with
      | nil => rfl
      | cons c t =>
        have hne : d ≠ c := fun he => by simp [he, ht c rfl] at hd
        simp [List.isPrefixOf, hne]
    | cons c u => simp only [List.cons_append, List.isPrefixOf, ih hw]

theorem takeWhile_append_stop {p : Char → Bool} (ht : Stops t) (hp : stops.any p = false)
    (u : List Char) : (u ++ t).takeWhile p = u.takeWhile p := by
  induction u with
  | nil =>
    cases t with
    | nil => rfl
    | cons c t => exact List.takeWhile_cons_of_neg (by simp [ht.not hp c rfl])
  | cons c u ih => simp only [List.cons_append, List.takeWhile_cons, ih]

theorem dropWhile_append_stop {p : Char → Bool} (ht : Stops t) (hp : stops.any p = false)
    (u : List Char) : (u ++ t).dropWhile p = u.dropWhile p ++ t := by
  induction u with
  | nil =>
    cases t with
    | nil => rfl
    | cons c t => exact List.dropWhile_cons_of_neg (by simp [ht.not hp c rfl])
  | cons c u ih =>
    simp only [List.cons_append, List.dropWhile_cons, ih]
    split <;> rfl

theorem drop_le_length {a b : Nat} {u : List Char} (ha : a ≤ u.length)
    (hb : b ≤ (u.drop a).length) : a + b ≤ u.length := by
  rw [List.length_drop] at hb
  omega

end

/-! ## Gaps and literals -/

/-- A run of blanks and line ends. A carriage return by itself is no line end here: the search for a
guard takes a row that starts with one for blank, whatever stands in it. -/
inductive Gap : List Char → Prop
  | nil : Gap []
  | blank {c : Char} {g : List Char} (hc : Piece.isGap c = true) (hg : Gap g) : Gap (c :: g)
  | lineFeed {g : List Char} (hg : Gap g) : Gap ('\n' :: g)
  | newline {g : List Char} (hg : Gap g) : Gap ('\r' :: '\n' :: g)

/-- The quotes around a string literal, one or three of them. -/
def quotesOf (q : Char) (long : Bool) : List Char := if long then [q, q, q] else [q]

/-- What may stand between the quotes of a string literal. A backslash hides the character behind
it, or the line end; without one, a literal between single quotes does not go over the end of a
line. -/
inductive Body (q : Char) (long : Bool) : List Char → Prop
  | nil : Body q long []
  | plain {c : Char} {body : List Char} (hc : c ≠ '\\')
      (hclose : ¬ quotesOf q long <+: c :: (body ++ quotesOf q long))
      (hline : long = true ∨ c ≠ '\n' ∧ c ≠ '\r') (hbody : Body q long body) :
      Body q long (c :: body)
  | hidden {c : Char} {body : List Char} (hbody : Body q long body) :
      Body q long ('\\' :: c :: body)
  | joined {body : List Char} (hbody : Body q long body) :
      Body q long ('\\' :: '\r' :: '\n' :: body)

/-- A string literal without the letters in front of it. -/
def literalOf (q : Char) (long : Bool) (body : List Char) : List Char :=
  quotesOf q long ++ (body ++ quotesOf q long)

/-- Two layouts of one text: the same tokens, and gaps in the same places. The brackets `k` are open
in front of the text and `k'` behind it, the innermost first. -/
inductive Relaid : List Bracket → List Bracket → List Char → List Char → Prop
  | nil (k : List Bracket) : Relaid k k [] []
  | sign {k k' : List Bracket} {c : Char} {s s' : List Char} (hc : isSign c = true)
      (h : Relaid k k' s s') : Relaid k k' (c :: s) (c :: s')
  | opener {k k' : List Bracket} {b : Bracket} {s s' : List Char} (h : Relaid (b :: k) k' s s') :
      Relaid k k' (b.opener :: s) (b.opener :: s')
  | closer {k k' : List Bracket} {b : Bracket} {s s' : List Char} (h : Relaid k k' s s') :
      Relaid (b :: k) k' (b.closer :: s) (b.closer :: s')
  | literal {k k' : List Bracket} {q : Char} {long : Bool} {body s s' : List Char}
      (hq : Piece.isQuote q = true) (hbody : Body q long body)
      -- Two quotes with a third one behind them would open a long literal.
      (hs : long = false → body = [] → s.head? ≠ some q ∧ s'.head? ≠ some q)
      (h : Relaid k k' s s') :
      Relaid k k' (literalOf q long body ++ s) (literalOf q long body ++ s')
  | gap {k k' : List Bracket} {g g' s s' : List Char} (hg : Gap g) (hg' : Gap g') (hne : g ≠ [])
      (hne' : g' ≠ []) (hs : Bare s) (hs' : Bare s') (h : Relaid k k' s s') :
      Relaid k k' (g ++ s) (g' ++ s')

/-! ## Gaps -/

theorem isBlank_of_isGap {c : Char} (h : Piece.isGap c = true) : Text.isBlank c = true := by
  simp only [Piece.isGap, Bool.or_eq_true, beq_iff_eq] at h
  obtain (rfl | rfl) | rfl := h <;> decide

theorem mem_stops_of_isGap {c : Char} (h : Piece.isGap c = true) : c ∈ stops := by
  simp only [Piece.isGap, Bool.or_eq_true, beq_iff_eq] at h
  obtain (rfl | rfl) | rfl := h <;> decide

theorem Gap.isBlank {g : List Char} (h : Gap g) : ∀ c ∈ g, Text.isBlank c = true := by
  induction h with
  | nil => simp
  | blank hc _ ih => simpa using ⟨isBlank_of_isGap hc, ih⟩
  | lineFeed _ ih => exact List.forall_mem_cons.mpr ⟨by decide, ih⟩
  | newline _ ih =>
    exact List.forall_mem_cons.mpr ⟨by decide, List.forall_mem_cons.mpr ⟨by decide, ih⟩⟩

theorem Gap.stops {g : List Char} (h : Gap g) (hne : g ≠ []) (s : List Char) : Stops (g ++ s) := by
  cases h with
  | nil => exact absurd rfl hne
  | blank hc _ => exact Stops.cons (mem_stops_of_isGap hc) _
  | lineFeed _ => exact Stops.cons (by decide) _
  | newline _ => exact Stops.cons (by decide) _

theorem Gap.head?_quote {g : List Char} (hg : Gap g) (hne : g ≠ []) (s : List Char) :
    (g ++ s).head?.filter Piece.isQuote = none := by
  cases hg with
  | nil => exact absurd rfl hne
  | blank hc _ =>
    simp only [Piece.isGap, Bool.or_eq_true, beq_iff_eq] at hc
    obtain (rfl | rfl) | rfl := hc <;> rfl
  | lineFeed _ => rfl
  | newline _ => rfl

theorem mem_stops_of_isQuote {q : Char} (h : Piece.isQuote q = true) : q ∈ Host.stops := by
  simp only [Piece.isQuote, Bool.or_eq_true, beq_iff_eq] at h
  obtain rfl | rfl := h <;> decide

theorem head?_literalOf (q : Char) (long : Bool) (body s : List Char) :
    (literalOf q long body ++ s).head? = some q := by
  cases long <;> rfl

theorem Stops.literal {q : Char} (hq : Piece.isQuote q = true) (long : Bool) (body s : List Char) :
    Stops (literalOf q long body ++ s) := by
  intro c hc
  rw [head?_literalOf] at hc
  cases hc
  exact mem_stops_of_isQuote hq

theorem Stops.opener (b : Bracket) (s : List Char) : Stops (b.opener :: s) :=
  .cons (by cases b <;> decide) s

theorem Stops.closer (b : Bracket) (s : List Char) : Stops (b.closer :: s) :=
  .cons (by cases b <;> decide) s

/-! ## Laws of layouts -/

namespace Relaid

variable {k k' : List Bracket} {s s' t t' u : List Char}

theorem symm (h : Relaid k k' s s') : Relaid k k' s' s := by
  induction h with
  | nil k => exact .nil k
  | sign hc _ ih => exact .sign hc ih
  | opener _ ih => exact .opener ih
  | closer _ ih => exact .closer ih
  | literal hq hbody hs _ ih => exact .literal hq hbody (fun hl hb => (hs hl hb).symm) ih
  | gap hg hg' hne hne' hs hs' _ ih => exact .gap hg' hg hne' hne hs' hs ih

theorem signs (hu : ∀ c ∈ u, isSign c = true) (h : Relaid k k' t t') :
    Relaid k k' (u ++ t) (u ++ t') := by
  induction u with
  | nil => exact h
  | cons c u ih =>
    obtain ⟨hc, hu⟩ := List.forall_mem_cons.mp hu
    exact .sign hc (ih hu)

/-- A gap with a sign behind it. -/
theorem gapSign {g g' : List Char} {c : Char} (hg : Gap g) (hg' : Gap g') (hne : g ≠ [])
    (hne' : g' ≠ []) (hc : isSign c = true) (h : Relaid k k' s s') :
    Relaid k k' (g ++ c :: s) (g' ++ c :: s') := by
  have hbare (s : List Char) : Bare (c :: s) := by
    intro d hd
    cases hd
    exact (isSign_iff.mp hc).2.1
  exact .gap hg hg' hne hne' (hbare s) (hbare s') (.sign hc h)

/-- Both layouts start with the same signs, and go on with a character at which these end. -/
theorem run (h : Relaid k k' s s') : ∃ u t t', (∀ c ∈ u, isSign c = true) ∧ s = u ++ t
    ∧ s' = u ++ t' ∧ Relaid k k' t t' ∧ Stops t ∧ Stops t' := by
  have none : ∀ c ∈ ([] : List Char), isSign c = true := by simp
  induction h with
  | nil k => exact ⟨[], _, _, none, rfl, rfl, .nil k, .nil, .nil⟩
  | sign hc h ih =>
    obtain ⟨u, t, t', hu, rfl, rfl, hrest⟩ := ih
    exact ⟨_ :: u, t, t', List.forall_mem_cons.mpr ⟨hc, hu⟩, rfl, rfl, hrest⟩
  | opener h _ => exact ⟨[], _, _, none, rfl, rfl, h.opener, .opener _ _, .opener _ _⟩
  | closer h _ => exact ⟨[], _, _, none, rfl, rfl, h.closer, .closer _ _, .closer _ _⟩
  | literal hq hbody hs h _ =>
    exact ⟨[], _, _, none, rfl, rfl, .literal hq hbody hs h, .literal hq _ _ _, .literal hq _ _ _⟩
  | gap hg hg' hne hne' hs hs' h _ =>
    exact ⟨[], _, _, none, rfl, rfl, .gap hg hg' hne hne' hs hs' h, hg.stops hne _,
      hg'.stops hne' _⟩

/-- A layout starts with no comment. -/
theorem head?_ne (h : Relaid k k' s s') : s.head? ≠ some '#' := by
  obtain ⟨u, t, t', hu, rfl, -, -, hstop, -⟩ := h.run
  intro hhead
  cases u with
  | nil => exact absurd (hstop '#' hhead) (by decide)
  | cons c u =>
    cases hhead
    exact absurd (hu '#' List.mem_cons_self) (by decide)

/-- A quote stands at the front of both layouts, or of none. -/
theorem head?_quote (h : Relaid k k' s s') :
    s.head?.filter Piece.isQuote = s'.head?.filter Piece.isQuote := by
  cases h with
  | literal => rw [head?_literalOf, head?_literalOf]
  | gap hg hg' hne hne' => rw [hg.head?_quote hne, hg'.head?_quote hne']
  | _ => rfl

/-- Induction along the tokens of two layouts. A run of signs that `marks` a literal is one token
with it; from any other run a token is taken off the front, and the rest of it is such a text
again. -/
theorem inductionOnTokens {P : List Bracket → List Char → List Char → Prop}
    (marks : List Char → Prop) (nil : P k' [] [])
    (opener : ∀ {b k s s'}, P (b :: k) s s' → P k (b.opener :: s) (b.opener :: s'))
    (closer : ∀ {b k s s'}, P k s s' → P (b :: k) (b.closer :: s) (b.closer :: s'))
    (literal : ∀ {k u q long body s s'}, (∀ c ∈ u, isSign c = true) → u = [] ∨ marks u →
      Piece.isQuote q = true → Body q long body →
      (long = false → body = [] → s.head? ≠ some q ∧ s'.head? ≠ some q) → P k s s' →
      P k (u ++ (literalOf q long body ++ s)) (u ++ (literalOf q long body ++ s')))
    (gap : ∀ {k g g' s s'}, Gap g → Gap g' → g ≠ [] → g' ≠ [] → Bare s → Bare s' →
      Relaid k k' s s' → P k s s' → P k (g ++ s) (g' ++ s'))
    (signs : ∀ {k u t t'}, (∀ c ∈ u, isSign c = true) → u ≠ [] → Relaid k k' t t' → Stops t →
      Stops t' → (marks u → t.head?.filter Piece.isQuote = none) →
      (marks u → t'.head?.filter Piece.isQuote = none) →
      (∀ v, v <:+ u → v.length < u.length → P k (v ++ t) (v ++ t')) → P k (u ++ t) (u ++ t'))
    (h : Relaid k k' s s') : P k s s' := by
  induction hlen : s.length using Nat.strongRecOn generalizing k s s' with
  | ind n ih =>
    obtain ⟨u, t, t', hu, rfl, rfl, ht, hstop, hstop'⟩ := h.run
    replace ih {k₁ : List Bracket} {r r' : List Char} (hlt : r.length < (u ++ t).length)
        (hr : Relaid k₁ k' r r') : P k₁ r r' := ih _ (hlen ▸ hlt) hr rfl
    by_cases hmarks : u = [] ∨ (marks u ∧ t.head?.filter Piece.isQuote ≠ none)
    · have hnil (hq : t.head?.filter Piece.isQuote = none) : u = [] :=
        hmarks.resolve_right fun hm => hm.2 hq
      cases ht with
      | nil =>
        obtain rfl := hnil rfl
        exact nil
      | sign hc => exact absurd rfl (ne_of_isSign hc (hstop _ rfl))
      | @opener _ _ b _ _ htail =>
        obtain rfl := hnil (by cases b <;> rfl)
        exact opener (ih (Nat.lt_succ_self _) htail)
      | @closer _ _ b _ _ htail =>
        obtain rfl := hnil (by cases b <;> rfl)
        exact closer (ih (Nat.lt_succ_self _) htail)
      | @literal _ _ q long body _ _ hq hbody hs htail =>
        refine literal hu (hmarks.imp_right And.left) hq hbody hs (ih ?_ htail)
        cases long <;> simp [literalOf, quotesOf] <;> omega
      | @gap _ _ g g' _ _ hg hg' hne hne' hs hs' htail =>
        obtain rfl := hnil (hg.head?_quote hne _)
        rw [List.nil_append] at ih
        rw [List.nil_append, List.nil_append]
        refine gap hg hg' hne hne' hs hs' htail (ih ?_ htail)
        have := List.length_pos_iff.mpr hne
        rw [List.length_append]
        omega
    · obtain ⟨hne, hmarks⟩ := not_or.mp hmarks
      have hquote (hm : marks u) : t.head?.filter Piece.isQuote = none :=
        Decidable.not_not.mp fun hq => hmarks ⟨hm, hq⟩
      refine signs hu hne ht hstop hstop' hquote (fun hm => ht.head?_quote ▸ hquote hm)
        fun v hv hlt => ih ?_ (ht.signs fun c hc => hu c (hv.subset hc))
      rw [List.length_append, List.length_append]
      omega

/-- The layouts have the same characters but for blanks. -/
theorem mem_iff (h : Relaid k k' s s') {c : Char} (hc : Text.isBlank c = false) :
    c ∈ s ↔ c ∈ s' := by
  have hgap {g : List Char} (hg : Gap g) : c ∉ g := by
    intro hm
    rw [hg.isBlank c hm] at hc
    cases hc
  induction h with
  | nil k => rfl
  | sign _ _ ih => simp only [List.mem_cons, ih]
  | opener _ ih => simp only [List.mem_cons, ih]
  | closer _ ih => simp only [List.mem_cons, ih]
  | literal _ _ _ _ ih => simp only [List.mem_append, ih]
  | gap hg hg' _ _ _ _ _ ih => simp only [List.mem_append, hgap hg, hgap hg', false_or, ih]

/-- Without a gap there is one layout only. -/
theorem eq_of_not_blank (h : Relaid k k' s s') (hs : ∀ c ∈ s, Text.isBlank c = false) : s = s' := by
  induction h with
  | nil k => rfl
  | sign _ _ ih => rw [ih (List.forall_mem_cons.mp hs).2]
  | opener _ ih => rw [ih (List.forall_mem_cons.mp hs).2]
  | closer _ ih => rw [ih (List.forall_mem_cons.mp hs).2]
  | literal _ _ _ _ ih => rw [ih (List.forall_mem_append.mp hs).2]
  | gap hg _ hne _ _ _ _ _ =>
    obtain ⟨c, hc⟩ := List.exists_mem_of_ne_nil _ hne
    have := (List.forall_mem_append.mp hs).1 c hc
    rw [hg.isBlank c hc] at this
    cases this

theorem wordsFrom_gap (word : List Char) {g : List Char} (hg : ∀ c ∈ g, Text.isBlank c = true)
    (hne : g ≠ []) (s : List Char) : Text.wordsFrom word (g ++ s)
      = (if word.isEmpty then [] else [word.reverse]) ++ Text.wordsFrom [] s := by
  induction g generalizing word with
  | nil => exact absurd rfl hne
  | cons c g ih =>
    obtain ⟨hc, hg⟩ := List.forall_mem_cons.mp hg
    have hrest : Text.wordsFrom [] (g ++ s) = Text.wordsFrom [] s := by
      cases g with
      | nil => rfl
      | cons d g => exact ih [] hg (List.cons_ne_nil d g)
    rw [List.cons_append, Text.wordsFrom, if_pos hc, hrest]
    split <;> rfl

theorem wordsFrom_append {s s' : List Char}
    (h : ∀ word, Text.wordsFrom word s = Text.wordsFrom word s') (u word : List Char) :
    Text.wordsFrom word (u ++ s) = Text.wordsFrom word (u ++ s') := by
  induction u generalizing word with
  | nil => exact h word
  | cons c u ih => simp only [List.cons_append, Text.wordsFrom, ih]

/-- With their blanks squeezed, the layouts are the same. -/
theorem squeeze_eq (h : Relaid k k' s s') : Text.squeeze s = Text.squeeze s' := by
  have hwords : ∀ word, Text.wordsFrom word s = Text.wordsFrom word s' := by
    induction h with
    | nil k => exact fun _ => rfl
    | sign _ _ ih => exact wordsFrom_append ih [_]
    | opener _ ih => exact wordsFrom_append ih [_]
    | closer _ ih => exact wordsFrom_append ih [_]
    | literal _ _ _ _ ih => exact wordsFrom_append ih _
    | gap hg hg' hne hne' _ _ _ ih =>
      intro word
      rw [wordsFrom_gap word hg.isBlank hne, wordsFrom_gap word hg'.isBlank hne', ih]
  rw [Text.squeeze, Text.words, hwords]
  rfl

end Relaid

end MarkupTemplate.Host
