import MarkupTemplate.Proofs.Atom.Level
import MarkupTemplate.Token

/-!
# What a cut may follow

A literal behind a cut is marked by what stands before the cut only if the text before it ends in a
word that goes on with the literal. Behind a bracket, behind the punctuation and the words of the
grammar and behind a literal there is no such word; behind a number there is none either, unless the
number is directly followed by a string.

* `Literal.detached_of_last`, `Literal.detached_of_head`: the two sides of a cut.
* `Atom.Divides`: an atom that host code may follow.
* `Level.detached`: what follows such an atom on a level is detached from it.
-/
namespace MarkupTemplate

open Text (slice)

namespace Literal

theorem detached_of_last {σ w : List Char} (h : ∀ c ∈ σ.head?, Scan.isWordPart c = false) :
    Detached σ w := fun _ _ _ _ _ => isRaw_append (.inl h)

/-- A text that goes on with no word is detached, unless it starts with a literal that what stands
before it marks. -/
theorem detached_of_head {σ w : List Char}
    (h : ∀ c ∈ w.head?, Scan.isWordPart c = false ∧ (c = '\x27' ∨ c = '"' → isRaw σ = false)) :
    Detached σ w := by
  rintro u c s rfl hc
  cases u with
  | nil => exact ((h c rfl).2 hc).trans (by decide)
  | cons d u =>
    refine isRaw_append (.inr ⟨d, ?_, (h d rfl).1⟩)
    rw [List.reverse_cons, List.getLast?_concat]
    rfl

/-- A word whose second but last character is no mark marks no literal. -/
theorem not_isRaw_of_word {c d : Char} {τ : List Char} (hm : isMark d = false)
    (hw : Scan.isWordPart d = true) : isRaw (c :: d :: τ) = false := by
  have hw' : (Text.isWord d || d == '_') = true := hw
  cases hc : isMark c with
  | true => simp [isRaw, hc, hm, hw']
  | false => simp [isRaw, hc]

theorem not_isRaw_of_keyword {word : String} (h : keywords.contains word = true) (τ : List Char) :
    isRaw (word.toList.reverse ++ τ) = false := by
  have hall : ∀ w ∈ keywords, ∃ c d u, w.toList.reverse = c :: d :: u ∧ isMark d = false
      ∧ Scan.isWordPart d = true := by
    intro w hw
    simp only [keywords, List.mem_cons, List.not_mem_nil, or_false] at hw
    rcases hw with rfl | rfl | rfl | rfl | rfl | rfl <;>
      exact ⟨_, _, _, rfl, by decide, by decide⟩
  obtain ⟨c, d, u, hu, hm, hw⟩ := hall word (by simpa using h)
  rw [hu]
  exact not_isRaw_of_word hm hw

end Literal

/-- An atom that host code may follow: a literal, a word of the grammar, punctuation or a group. -/
inductive Atom.Divides : Atom → Prop where
  | string {value : String} {pos stop : Nat} : Divides (.leaf .string value pos stop)
  | number {value : String} {pos stop : Nat} : Divides (.leaf .number value pos stop)
  | keyword {value : String} {pos stop : Nat} (h : keywords.contains value = true) :
      Divides (.leaf .ident value pos stop)
  | punct {value : String} {pos stop : Nat} (h : ∀ c ∈ value.toList, Scan.isWordPart c = false) :
      Divides (.leaf .punct value pos stop)
  | group {b : Bracket} {pos stop : Nat} {inner : String} {children : List Atom} :
      Divides (.group b pos stop inner children)

/-- A string literal stands directly behind a number. -/
def NumberTouchesString (text : List Char) : Prop :=
  ∃ before after number string pos mid stop, Level text
    (before ++ .leaf .number number pos mid :: .leaf .string string mid stop :: after)

/-- An atom that starts with a quote is a literal. -/
theorem Scan.Passes.string_of_quote {p q : Place} {a : Atom} {as : List Atom} {c : Char}
    (h : Passes p (a :: as) q) (hc : p.rest.head? = some c) (hq : c = '\x27' ∨ c = '"') :
    ∃ value pos stop, a = .leaf .string value pos stop := by
  cases h with
  | blank hr hb =>
    rw [hr] at hc
    obtain rfl := Option.some.inj hc
    rcases hq with rfl | rfl <;> exact absurd hb (by decide)
  | leaf hr _ _ _ hl =>
    rw [hr] at hc
    obtain rfl := Option.some.inj hc
    unfold readLeaf at hl
    rw [if_pos hq] at hl
    obtain ⟨⟨text, q'⟩, -, hl⟩ := bind_ok hl
    obtain ⟨rfl, -⟩ := Prod.mk.inj (Except.ok.inj hl)
    exact ⟨_, _, _, rfl⟩
  | @group _ b _ _ _ _ _ _ hr =>
    rw [hr] at hc
    obtain rfl := Option.some.inj hc
    cases b <;> exact absurd hq (by decide)

theorem Level.string_of_quote {text : List Char} {before after : List Atom} {a : Atom} {c : Char}
    (h : Level text (before ++ a :: after)) (hc : text[a.pos]? = some c)
    (hq : c = '\x27' ∨ c = '"') : ∃ value pos stop, a = .leaf .string value pos stop := by
  obtain ⟨p, q, rfl, hpass, -⟩ := h.passes
  obtain ⟨r, hr, hpass⟩ := hpass.split
  obtain ⟨s, t, hs, ha, -, hpos, -⟩ := hpass.step
  refine ha.string_of_quote ?_ hq
  rw [← s.getElem?_text, hs.text_eq, hr.text_eq, hpos, hc]

/-- What follows such an atom is detached from it. -/
theorem Level.detached {text : List Char} {as before after : List Atom} {a z : Atom}
    (hn : ¬ NumberTouchesString text) (h : Level text (before ++ (as ++ after)))
    (ha : as.head? = some a) (hz : as.getLast? = some z)
    (hd : ∀ x, before.getLast? = some x → x.Divides) :
    Literal.Detached (text.take a.pos).reverse (slice text a.pos z.stop) := by
  have hb := h.neighbours ha hz
  obtain ⟨as, rfl⟩ := List.head?_eq_some_iff.mp ha
  rcases h.boundary_or with hstart | ⟨x, hx, hstop⟩
  · refine Literal.detached_of_last fun c hc => ?_
    rw [List.head?_reverse] at hc
    exact Text.isWordPart_of_isBoundary (hstart c hc)
  obtain ⟨before, rfl⟩ := List.getLast?_eq_some_iff.mp hx
  -- the text before the cut ends in the characters of the atom before it
  have hxs : x.pos < x.stop := by
    have h : Level text (before ++ ([x] ++ (a :: as ++ after))) := by simpa using h
    exact (h.neighbours rfl rfl).first
  obtain ⟨hshows, -⟩ := h.shows x (by simp)
  have hlast : ∀ {u c}, slice text x.pos x.stop = u ++ [c] → Scan.isWordPart c = false →
      Literal.Detached (text.take a.pos).reverse (slice text a.pos z.stop) := by
    intro u c hu hc
    refine Literal.detached_of_last ?_
    rw [← hstop, ← Text.take_append_slice (Nat.le_of_lt hxs), hu]
    simpa using hc
  have hhead : (slice text a.pos z.stop).head? = (text.drop x.stop).head? := by
    rw [Text.head?_slice hb.lt, List.head?_drop, hstop]
  cases hd x hx with
  | string =>
    obtain ⟨quote, body, hquote, hslice⟩ := hshows
    refine hlast (u := quote :: body) hslice ?_
    rcases hquote with rfl | rfl <;> decide
  | @number value pos stop =>
    obtain ⟨-, -, hnext⟩ := hshows
    refine Literal.detached_of_head fun c hc => ⟨hnext c (hhead ▸ hc), fun hq => ?_⟩
    rw [Text.head?_slice hb.lt] at hc
    have h' : Level text ((before ++ [.leaf .number value pos stop]) ++ a :: (as ++ after)) := h
    obtain ⟨string, pos', stop', rfl⟩ := h'.string_of_quote hc hq
    obtain rfl : stop = pos' := hstop
    exact absurd ⟨before, as ++ after, value, string, pos, stop, stop', by simpa using h⟩ hn
  | keyword hk =>
    obtain ⟨hv, -, hnext⟩ := hshows
    refine Literal.detached_of_head fun c hc => ⟨hnext c (hhead ▸ hc), fun _ => ?_⟩
    rw [← hstop, ← Text.take_append_slice (Nat.le_of_lt hxs), List.reverse_append]
    have := Literal.not_isRaw_of_keyword hk
    rw [hv, String.toList_ofList] at this
    exact this _
  | @punct value pos stop hc =>
    obtain ⟨hv, hlen⟩ := hshows
    obtain ⟨d, hd⟩ := List.length_eq_one_iff.mp hlen
    refine hlast (u := []) hd (hc d ?_)
    rw [hv, hd, String.toList_ofList]
    exact List.mem_cons_self
  | @group b =>
    exact hlast (u := b.opener :: _) hshows (Text.isWordPart_of_isBoundary b.isBoundary_closer)

end MarkupTemplate
