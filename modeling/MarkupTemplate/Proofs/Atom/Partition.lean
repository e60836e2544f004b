import Mathlib
import MarkupTemplate.Proofs.Atom.Move

/-!
# Atoms partition their text

The atoms of a text stand in it one after the other, and nothing but blanks stands outside them.
Each shows its own part of the text, and what a group contains partitions the part between its
brackets.

* `Atom.Shows`: what an atom says about its part of the text.
* `Partition`: the law for the atoms between two offsets, at every depth.
* `scan_partition`: the atoms of a text from an offset on obey it.
-/
namespace MarkupTemplate

/-! ## Parts of a text -/

namespace Text

/-- A text with no blank at its ends. -/
def Solid (u : List Char) : Prop :=
  (∀ d ∈ u.head?, isBlank d = false) ∧ ∀ d ∈ u.getLast?, isBlank d = false

theorem not_isBlank_of_isBoundary {c : Char} (h : isBoundary c = false) : isBlank c = false := by
  rw [← Bool.not_eq_true]
  intro hb
  rw [isBoundary_of_isBlank hb] at h
  cases h

theorem not_isBlank_of_isWordPart {c : Char} (h : Scan.isWordPart c = true) :
    isBlank c = false := not_isBlank_of_isBoundary (not_isBoundary_of_isWordPart h)

end Text

/-! ## What atoms show -/

/-- What a leaf says about its characters `u`, behind which the text `y` stands. -/
def LeafShows (kind : LeafKind) (value : String) (u y : List Char) : Prop :=
  match kind with
  | .ident => value = String.ofList u ∧ (∀ d ∈ u, Scan.isWordPart d = true)
      ∧ ∀ d ∈ y.head?, Scan.isWordPart d = false
  | .number => value = String.ofList u ∧ (∀ d ∈ u.head?, Text.isDigit d = true)
      ∧ ∀ d ∈ y.head?, Scan.isWordPart d = false
  | .punct => value = String.ofList u ∧ u.length = 1
  | .string => ∃ quote body, (quote = '\x27' ∨ quote = '"') ∧ u = quote :: (body ++ [quote])

/-- What an atom says about its part of the text: a word, a number and a punctuation character are
that part, a literal stands between quotes, and a group keeps what stands between its brackets. -/
def Atom.Shows (text : List Char) : Atom → Prop
  | .leaf kind value pos stop => LeafShows kind value (Text.slice text pos stop) (text.drop stop)
  | .group b pos stop inner _ =>
    Text.slice text pos stop = b.opener :: (inner.toList ++ [b.closer])

/-- The atoms between two offsets of a text: not empty, in order and without overlap, with only
blanks outside them, each showing its part of the text; and what a group contains lies so between
its brackets. -/
inductive Partition (text : List Char) : Nat → Nat → List Atom → Prop where
  | mk {lo hi : Nat} {as : List Atom}
      (order : as.Pairwise fun a b => a.stop ≤ b.pos)
      (bounds : ∀ a ∈ as, lo ≤ a.pos ∧ a.pos < a.stop ∧ a.stop ≤ hi)
      (blank : ∀ i, lo ≤ i → i < hi → (∀ a ∈ as, i < a.pos ∨ a.stop ≤ i) →
        ∃ c ∈ text[i]?, Text.isBlank c = true)
      (shows : ∀ a ∈ as, a.Shows text ∧ Text.Solid (Text.slice text a.pos a.stop))
      (inside : ∀ b pos stop inner children, Atom.group b pos stop inner children ∈ as →
        Partition text (pos + 1) (stop - 1) children) : Partition text lo hi as

namespace Partition

variable {text : List Char} {lo hi : Nat} {as : List Atom}

theorem nil (text : List Char) (lo : Nat) : Partition text lo lo [] :=
  .mk .nil (by simp) (fun i h₁ h₂ => absurd h₁ (Nat.not_le_of_lt h₂)) (by simp) (by simp)

/-- A blank in front of the atoms belongs to none of them. -/
theorem blank_cons {c : Char} (hc : c ∈ text[lo]?) (hb : Text.isBlank c = true)
    (h : Partition text (lo + 1) hi as) : Partition text lo hi as := by
  obtain ⟨order, bounds, blank, shows, inside⟩ := h
  refine .mk order (fun a ha => ?_) (fun i h₁ h₂ hout => ?_) shows inside
  · have := bounds a ha
    omega
  · by_cases hi : i = lo
    · exact ⟨c, hi ▸ hc, hb⟩
    · exact blank i (by omega) h₂ hout

/-- An atom in front of the atoms behind it. -/
theorem cons {a : Atom} (hne : a.pos < a.stop) (hstop : a.stop ≤ hi) (hs : a.Shows text)
    (hsolid : Text.Solid (Text.slice text a.pos a.stop))
    (hin : ∀ b pos stop inner children, a = .group b pos stop inner children →
      Partition text (pos + 1) (stop - 1) children)
    (h : Partition text a.stop hi as) : Partition text a.pos hi (a :: as) := by
  obtain ⟨order, bounds, blank, shows, inside⟩ := h
  refine .mk (List.pairwise_cons.mpr ⟨fun b hb => (bounds b hb).1, order⟩)
    (List.forall_mem_cons.mpr ⟨⟨Nat.le_refl _, hne, hstop⟩, fun b hb => ?_⟩)
    (fun i h₁ h₂ hout => ?_) (List.forall_mem_cons.mpr ⟨⟨hs, hsolid⟩, shows⟩)
    fun b pos stop inner children hm => ?_
  · have := bounds b hb
    omega
  · obtain ⟨ha, hout⟩ := List.forall_mem_cons.mp hout
    exact blank i (by omega) h₂ hout
  · rcases List.mem_cons.mp hm with he | hm
    · exact hin b pos stop inner children he.symm
    · exact inside b pos stop inner children hm

end Partition

namespace Place

theorem text_ofOffset (text : List Char) (offset : Nat) : (ofOffset text offset).text = text := by
  simp [ofOffset, Place.text]

theorem drop_text (p : Place) : p.text.drop p.pos = p.rest := by
  rw [text, p.pos_eq, ← List.length_reverse, List.drop_left]

theorem getElem?_text (p : Place) : p.text[p.pos]? = p.rest.head? := by
  rw [← drop_text, List.head?_drop]

theorem slice_text {p : Place} {u y : List Char} (h : p.rest = u ++ y) :
    Text.slice p.text p.pos (p.pos + u.length) = u := by
  rw [Text.slice, drop_text, h, Nat.add_sub_cancel_left, List.take_left]

theorem drop_text_add {p : Place} {u y : List Char} (h : p.rest = u ++ y) :
    p.text.drop (p.pos + u.length) = y := by
  rw [← List.drop_drop, drop_text, h, List.drop_left]

end Place

/-! ## Leaves -/

namespace Literal

/-- A literal stands between its quote and the same quote. -/
theorem readString_quotes {c : Char} {p q : Place} {text : List Char}
    (hp : p.rest.head? = some c) (h : readString c p = .ok (text, q)) :
    ∃ body, p.rest = c :: (body ++ [c]) ++ q.rest := by
  obtain ⟨u, hu, -, -⟩ := readBody_append (Scan.length_openingQuotes_pos c p) h
  rcases openingQuotes_eq_or c p with ⟨hq, hpre⟩ | ⟨hq, -⟩
  · obtain ⟨t, ht⟩ := hpre
    rw [hq, Place.advance_rest ht.symm] at hu
    exact ⟨[c, c] ++ u ++ [c, c], by rw [← ht, hu]; simp⟩
  · obtain ⟨t, ht⟩ := List.head?_eq_some_iff.mp hp
    rw [hq, Place.advance_rest (u := [c]) ht] at hu
    exact ⟨u, by rw [ht, hu]; simp⟩

/-- What stands behind a number goes on with no word. -/
theorem not_isWordPart_of_numberLength {hex : Bool} {last : Char} {u y : List Char}
    (h : numberLength hex last (u ++ y) = u.length) :
    ∀ d ∈ y.head?, Scan.isWordPart d = false := by
  induction u generalizing last with
  | nil =>
    cases y with
    | nil => simp
    | cons d y =>
      intro e he
      obtain rfl : d = e := Option.some.inj he
      rw [← Bool.not_eq_true]
      intro hw
      have hw' : (Text.isWord d || d == '.' || d == '_') = true := by
        rw [Scan.isWordPart, Bool.or_eq_true] at hw
        rcases hw with hw | hw <;> simp [hw]
      simp [numberLength, hw'] at h
  | cons c u ih =>
    simp only [List.cons_append, numberLength, List.length_cons] at h
    split at h
    · exact ih (Nat.succ.inj h)
    · split at h
      · exact ih (Nat.succ.inj h)
      · cases h

end Literal

namespace Scan

/-- What follows the longest run of word characters goes on with no word. -/
theorem not_isWordPart_of_takeWhile {w y : List Char}
    (h : ((w ++ y).takeWhile isWordPart).length = w.length) :
    ∀ d ∈ y.head?, isWordPart d = false := by
  have hw := (Literal.takeWhile_move h (.inl rfl)).1
  rw [List.takeWhile_append_of_pos hw, List.length_append] at h
  cases y with
  | nil => simp
  | cons d y =>
    intro e he
    obtain rfl : d = e := Option.some.inj he
    rw [← Bool.not_eq_true]
    intro hd
    simp [hd] at h

/-- A leaf shows the characters that it takes, and no blank stands at their ends. -/
theorem readLeaf_shows {p q : Place} {c : Char} {more : List Char} {a : Atom}
    (hp : p.rest = c :: more) (hb : Text.isBlank c = false)
    (h : readLeaf p c more = .ok (a, q)) :
    ∃ kind value w, more = w ++ q.rest ∧ q = p.advance (w.length + 1)
      ∧ a = .leaf kind value p.pos (p.pos + (w.length + 1))
      ∧ LeafShows kind value (c :: w) q.rest ∧ Text.Solid (c :: w) := by
  obtain ⟨kind, w, value, hmore, hq, rfl, -⟩ := readLeaf_move hp h
  have hhead : ∀ d ∈ (c :: w).head?, Text.isBlank d = false := by simpa using hb
  have hrest : p.rest = (c :: w) ++ q.rest := by rw [hp, hmore]; rfl
  suffices LeafShows kind value (c :: w) q.rest
      ∧ ∀ d ∈ (c :: w).getLast?, Text.isBlank d = false from
    ⟨kind, value, w, hmore, hq, rfl, this.1, hhead, this.2⟩
  -- a leaf of known length is the text it takes
  have hleaf : ∀ {k n}, leafOf k p (n + 1) = (.leaf kind value p.pos (p.pos + (w.length + 1)), q) →
      n ≤ more.length → kind = k ∧ n = w.length ∧ value = String.ofList (c :: w) := by
    intro k n he hn
    obtain ⟨w', y, rfl, hy⟩ : ∃ w' y, w'.length = n ∧ more = w' ++ y :=
      ⟨more.take n, more.drop n, by rw [List.length_take]; omega, by rw [List.take_append_drop]⟩
    rw [leafOf_eq (y := y) (by rw [hp, hy])] at he
    obtain ⟨he, -⟩ := Prod.mk.inj he
    obtain ⟨rfl, rfl, -, hlen⟩ := Atom.leaf.inj he
    have hlen : w'.length = w.length := by omega
    obtain ⟨rfl, -⟩ := List.append_inj (hy.symm.trans hmore) hlen
    exact ⟨rfl, rfl, rfl⟩
  unfold readLeaf at h
  split at h
  · next hc =>
    obtain ⟨⟨text, q'⟩, hs, h⟩ := bind_ok h
    obtain ⟨ha, rfl⟩ := Prod.mk.inj (Except.ok.inj h)
    obtain ⟨rfl, -⟩ := Atom.leaf.inj ha
    obtain ⟨body, hbody⟩ := Literal.readString_quotes (by rw [hp]; rfl) hs
    obtain rfl : w = body ++ [c] := by
      rw [hrest] at hbody
      exact (List.cons.inj (List.append_cancel_right hbody)).2
    refine ⟨⟨c, body, hc, rfl⟩, ?_⟩
    rw [← List.cons_append, List.getLast?_concat]
    simpa using hb
  next hc =>
  split at h
  · next hd =>
    obtain ⟨rfl, hn, rfl⟩ := hleaf (Except.ok.inj h) (Literal.numberLength_le _ c more)
    rw [hmore] at hn
    refine ⟨⟨rfl, by simpa using hd, Literal.not_isWordPart_of_numberLength hn⟩, fun d hd' => ?_⟩
    rcases List.mem_cons.mp (List.mem_of_getLast? hd') with rfl | hmem
    · exact hb
    · exact Text.not_isBlank_of_isBoundary (Literal.not_isBoundary_of_number hn d hmem)
  next hd =>
  split at h
  · next hl =>
    obtain ⟨rfl, hn, rfl⟩ := hleaf (Except.ok.inj h) (more.takeWhile_sublist isWordPart).length_le
    rw [hmore] at hn
    have hword : ∀ d ∈ c :: w, isWordPart d = true :=
      List.forall_mem_cons.mpr
        ⟨isWordPart_of_letter hl, (Literal.takeWhile_move hn (.inl rfl)).1⟩
    exact ⟨⟨rfl, hword, not_isWordPart_of_takeWhile hn⟩, fun d hd' =>
      Text.not_isBlank_of_isWordPart (hword d (List.mem_of_getLast? hd'))⟩
  · obtain ⟨rfl, hn, rfl⟩ := hleaf (Except.ok.inj h) (Nat.zero_le _)
    obtain rfl := List.length_eq_zero_iff.mp hn.symm
    exact ⟨⟨rfl, rfl⟩, by simpa using hb⟩

/-! ## Passages -/

/-- A leaf in front of the atoms behind it. -/
theorem partition_leaf {p q : Place} {c : Char} {more : List Char} {a : Atom} {as : List Atom}
    {hi : Nat} (hr : p.rest = c :: more) (hb : Text.isBlank c = false)
    (hl : readLeaf p c more = .ok (a, q)) (hle : q.pos ≤ hi) (h : Partition q.text q.pos hi as) :
    Partition p.text p.pos hi (a :: as) := by
  obtain ⟨kind, value, w, hmore, hq, rfl, hshows, hsolid⟩ := readLeaf_shows hr hb hl
  have hrest : p.rest = (c :: w) ++ q.rest := by rw [hr, hmore]; rfl
  have hpos : q.pos = p.pos + (w.length + 1) := hq ▸ Place.advance_pos hrest
  have hslice : Text.slice p.text p.pos (p.pos + (w.length + 1)) = c :: w :=
    Place.slice_text hrest
  have htext : q.text = p.text := by rw [hq, Place.text_advance]
  rw [htext, hpos] at h
  refine .cons (a := .leaf kind value p.pos (p.pos + (w.length + 1))) ?_ ?_ ?_ ?_ (by simp) h
  · show p.pos < p.pos + (w.length + 1)
    omega
  · show p.pos + (w.length + 1) ≤ hi
    omega
  · show LeafShows kind value _ _
    rwa [hslice, ← List.length_cons (a := c), Place.drop_text_add hrest]
  · show Text.Solid (Text.slice p.text p.pos (p.pos + (w.length + 1)))
    rwa [hslice]

/-- A group in front of the atoms behind it. -/
theorem partition_group {p q : Place} {b : Bracket} {more rest : List Char}
    {children as : List Atom} {hi : Nat} (hr : p.rest = b.opener :: more)
    (hpass : Passes (p.advance 1) children q) (hq : q.rest = b.closer :: rest)
    (hinside : Partition (p.advance 1).text (p.advance 1).pos q.pos children)
    (hle : (q.advance 1).pos ≤ hi) (h : Partition (q.advance 1).text (q.advance 1).pos hi as) :
    Partition p.text p.pos hi (.group b p.pos (q.advance 1).pos
      (String.ofList ((p.advance 1).upTo q)) children :: as) := by
  obtain ⟨s, hrest, hqs, hinner⟩ := hpass.enclosed hr hq
  have htext : (q.advance 1).text = p.text := by
    rw [Place.text_advance, hpass.text_eq, Place.text_advance]
  have hstop : (q.advance 1).pos = p.pos + (b.opener :: (s ++ [b.closer])).length := by
    rw [hqs, Place.advance_advance, Place.advance_advance, ← Place.advance_pos hrest]
    simp only [List.length_cons, List.length_append, List.length_nil]
    congr 2
    omega
  have hslice : Text.slice p.text p.pos (q.advance 1).pos = b.opener :: (s ++ [b.closer]) := by
    rw [hstop]
    exact Place.slice_text hrest
  rw [htext] at h
  refine .cons (a := .group b p.pos (q.advance 1).pos
    (String.ofList ((p.advance 1).upTo q)) children) ?_ hle ?_ ?_ ?_ h
  · show p.pos < (q.advance 1).pos
    rw [hstop, List.length_cons]
    omega
  · show Text.slice p.text p.pos (q.advance 1).pos = _
    rw [hslice, hinner, String.toList_ofList]
  · show Text.Solid (Text.slice p.text p.pos (q.advance 1).pos)
    rw [hslice, Text.Solid, ← List.cons_append, List.getLast?_concat]
    simp [Bracket.isBlank_opener, Bracket.isBlank_closer]
  · intro b' pos stop inner children' he
    obtain ⟨-, rfl, rfl, -, rfl⟩ := Atom.group.inj he
    rw [Place.advance_one_pos hq, Nat.add_sub_cancel, ← p.text_advance 1,
      ← Place.advance_one_pos hr]
    exact hinside

/-- The atoms of a passage partition the part of the text that it leads over. -/
theorem Passes.partition {p q : Place} {as : List Atom} (h : Passes p as q) :
    Partition p.text p.pos q.pos as := by
  induction h with
  | nil p => exact .nil p.text p.pos
  | @blank p c more as q hr hb _ ih =>
    rw [Place.text_advance, Place.advance_one_pos hr] at ih
    exact ih.blank_cons (by rw [p.getElem?_text, hr]; rfl) hb
  | leaf hr hb _ _ hl h ih => exact partition_leaf hr hb hl h.pos_le ih
  | group hr hi hq h ihi ih => exact partition_group hr hi hq ihi h.pos_le ih

end Scan

end MarkupTemplate
