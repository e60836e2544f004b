import MarkupTemplate.Proofs.Atom.Escape
import MarkupTemplate.Proofs.Atom.Reading

/-!
# Leaves wherever they stand

What a leaf is depends on its own characters, on the character after it and, for a string literal,
on the word before it. Carried to another place, a leaf is read again as the same leaf.

* `Literal.IsBody`, `Literal.readBody_append`: the body of a literal, whatever follows its closing
  quotes.
* `Literal.isRaw_append`: the mark of a raw literal, whatever stands before a boundary.
* `Scan.readLeaf_move`: any leaf.
-/
namespace MarkupTemplate

namespace Literal

open Text (isBoundary Seam)

/-- What stops inside a list stops there whatever follows the list. -/
theorem takeWhile_append_congr {α : Type} {p : α → Bool} {l y : List α} (y' : List α)
    (h : ((l ++ y).takeWhile p).length < l.length) :
    (l ++ y').takeWhile p = (l ++ y).takeWhile p := by
  rw [List.takeWhile_append] at h
  split at h
  · next he =>
    rw [List.length_append] at h
    omega
  · next he => rw [List.takeWhile_append, List.takeWhile_append, if_neg he, if_neg he]

/-- An escape that ends before the last of the given characters does not depend on what follows
them. -/
theorem readEscape_append {d : Char} {v y y' t : List Char} {n : Nat}
    (h : readEscape d (v ++ y) = .ok (t, n)) (hn : n < v.length) :
    readEscape d (v ++ y') = .ok (t, n) := by
  have hhead : (v ++ y').head? = (v ++ y).head? := by
    obtain ⟨e, v, rfl⟩ := List.exists_cons_of_length_pos (Nat.zero_lt_of_lt hn)
    rfl
  have htake {k : Nat} (hk : k ≤ v.length) : (v ++ y').take k = (v ++ y).take k := by
    rw [List.take_append_of_le_length hk, List.take_append_of_le_length hk]
  rw [readEscape_eq_iff] at h ⊢
  cases h with
  | simple hs => exact .simple hs
  | lineBreak hc => exact hhead ▸ .lineBreak hc
  | code hw hlen hc hd =>
    rw [← htake (Nat.le_of_lt hn)] at hlen hc
    exact .code hw hlen hc hd
  | octal ho hmore =>
    refine .octal ho (hmore ▸ ?_)
    -- one character may be all that is given, but then it is no digit
    obtain _ | ⟨e, _ | ⟨f, v⟩⟩ := v
    · cases hn
    · subst hmore
      have he : isOctal e = false := by
        rw [← Bool.not_eq_true]
        intro he
        simp [he] at hn
      simp [he]
    · rfl
  | @named body name c hd hrest hname hlt hc =>
    obtain ⟨e, v, rfl⟩ := List.exists_cons_of_length_pos (Nat.zero_lt_of_lt hn)
    rw [List.cons_append] at hrest
    obtain ⟨rfl, rfl⟩ := List.cons.inj hrest
    rw [List.length_cons] at hn
    have hlt' : name.length < (v ++ y').length := by
      rw [List.length_append]
      omega
    subst hname
    exact .named hd rfl (takeWhile_append_congr y' (by omega)) hlt' hc
  | other hs hr hw ho hN => exact .other hs hr hw ho (hhead ▸ hN)

theorem prefix_append_iff {q u : List Char} (y : List Char) (h : q.length ≤ u.length) :
    q.isPrefixOf (u ++ y) = q.isPrefixOf u := by
  rw [Bool.eq_iff_iff, List.isPrefixOf_iff_prefix, List.isPrefixOf_iff_prefix]
  refine ⟨fun hp => ?_, fun hp => hp.trans (List.prefix_append u y)⟩
  exact List.prefix_of_prefix_length_le hp (List.prefix_append u y) h

/-- One step of the reading of a body. -/
theorem readBody_eq (opened : Nat) (raw : Bool) (quotes : List Char) (p : Place) :
    readBody opened raw quotes p = match p.rest with
      | [] => .error ⟨.unterminatedString, opened⟩
      | c :: more =>
        if c = '\\' then
          match more with
          | [] => .error ⟨.unterminatedString, opened⟩
          | d :: rest =>
            if raw then do
              let (text, q) ← readBody opened raw quotes (p.advance 2)
              return ('\\' :: d :: text, q)
            else
              match readEscape d rest with
              | .error cause => .error ⟨cause, p.pos⟩
              | .ok (decoded, taken) => do
                let (text, q) ← readBody opened raw quotes (p.advance (taken + 2))
                return (decoded ++ text, q)
        else if quotes.isPrefixOf (c :: more) then .ok ([], p.advance quotes.length)
        else do
          let (text, q) ← readBody opened raw quotes (p.advance 1)
          return (c :: text, q) := by
  fun_cases readBody opened raw quotes p with
  | case1 h => rw [h]
  | case2 h => rw [h]; rfl
  | case3 _ _ hraw _ h => rw [h]; simp only [hraw, if_true]
  | case4 _ _ hraw _ he _ h => rw [h]; simp only [if_true, if_neg hraw, he]
  | case5 _ _ hraw _ _ he _ h => rw [h]; simp only [if_true, if_neg hraw, he]
  | case6 _ _ h hc hq => rw [h]; simp only [if_neg hc, if_pos hq]
  | case7 _ _ h hc hq => rw [h]; simp only [if_neg hc, if_neg hq]

/-- Characters that are the body of a literal, and stand for a text, wherever they are and whatever
follows the quotes behind them. -/
def IsBody (raw : Bool) (quotes u text : List Char) : Prop :=
  ∀ (opened : Nat) (p : Place) (y : List Char), p.rest = u ++ (quotes ++ y) →
    readBody opened raw quotes p = .ok (text, p.advance (u.length + quotes.length))

namespace IsBody

variable {raw : Bool} {quotes u text : List Char} {c : Char}

theorem nil (hc : c ≠ '\\') : IsBody raw (c :: quotes) [] [] := by
  intro opened p y hp
  rw [readBody_eq, hp]
  simp [hc]

theorem pair (d : Char) (h : IsBody true quotes u text) :
    IsBody true quotes ('\\' :: d :: u) ('\\' :: d :: text) := by
  intro opened p y hp
  have hrest : (p.advance 2).rest = u ++ (quotes ++ y) := by simp [Place.advance, hp]
  rw [readBody_eq, hp]
  simp only [List.cons_append, if_true]
  rw [h opened (p.advance 2) y hrest, Place.advance_advance]
  simp only [List.length_cons, Nat.add_comm 2, Nat.add_right_comm]
  rfl

theorem escape {d : Char} {v decoded : List Char}
    (he : ∀ y, readEscape d (v ++ (u ++ (quotes ++ y))) = .ok (decoded, v.length))
    (h : IsBody false quotes u text) :
    IsBody false quotes ('\\' :: d :: (v ++ u)) (decoded ++ text) := by
  intro opened p y hp
  have hrest : (p.advance (v.length + 2)).rest = u ++ (quotes ++ y) :=
    Place.advance_rest (u := '\\' :: d :: v) (by simpa using hp)
  have hlen : v.length + 2 + (u.length + quotes.length)
      = ('\\' :: d :: (v ++ u)).length + quotes.length := by
    simp only [List.length_cons, List.length_append]
    omega
  rw [readBody_eq, hp]
  simp only [List.cons_append, List.append_assoc, if_true, he y]
  rw [h opened _ y hrest, Place.advance_advance, hlen]
  rfl

theorem cons (hc : c ≠ '\\') (hpre : ∀ y, ¬ quotes <+: c :: (u ++ (quotes ++ y)))
    (h : IsBody raw quotes u text) : IsBody raw quotes (c :: u) (c :: text) := by
  intro opened p y hp
  have hrest : (p.advance 1).rest = u ++ (quotes ++ y) := by simp [Place.advance, hp]
  rw [readBody_eq, hp]
  simp only [List.cons_append, if_neg hc, if_neg (mt List.isPrefixOf_iff_prefix.mp (hpre y))]
  rw [h opened (p.advance 1) y hrest, Place.advance_advance]
  simp only [List.length_cons, Nat.add_comm 1, Nat.add_right_comm]
  rfl

end IsBody

/-- The body of a literal is read in the same way wherever it stands and whatever follows it. -/
theorem readBody_append {opened : Nat} {raw : Bool} {quotes : List Char} {p q : Place}
    {text : List Char} (hq : 0 < quotes.length) (h : readBody opened raw quotes p = .ok (text, q)) :
    ∃ u, p.rest = u ++ (quotes ++ q.rest) ∧ q = p.advance (u.length + quotes.length) ∧
      IsBody raw quotes u text := by
  fun_induction readBody opened raw quotes p generalizing text q with
  | case1 => cases h
  | case2 => cases h
  | case3 p d rest hraw _ hr ih =>
    obtain ⟨⟨text, q⟩, h₁, h⟩ := Scan.bind_ok h
    obtain ⟨rfl, rfl⟩ := Prod.mk.inj (Except.ok.inj h)
    obtain ⟨u, hu, hadv, hbody⟩ := ih h₁
    subst hraw
    have hrest : rest = u ++ (quotes ++ q.rest) := by rw [← hu]; simp [Place.advance, hr]
    refine ⟨'\\' :: d :: u, by rw [hr, hrest]; rfl, ?_, hbody.pair d⟩
    rw [hadv, Place.advance_advance]
    simp only [List.length_cons, Nat.add_comm 2, Nat.add_right_comm]
  | case4 => cases h
  | case5 p d rest hraw decoded taken he _ hr ih =>
    obtain ⟨⟨text, q⟩, h₁, h⟩ := Scan.bind_ok h
    obtain ⟨rfl, rfl⟩ := Prod.mk.inj (Except.ok.inj h)
    obtain ⟨u, hu, hadv, hbody⟩ := ih h₁
    obtain rfl : raw = false := Bool.of_not_eq_true hraw
    -- the escape itself lies before the rest of the body
    have hdrop : rest.drop taken = u ++ (quotes ++ q.rest) := by
      rw [← hu]; simp [Place.advance, hr]
    have htaken : (rest.take taken).length = taken := by
      have := congrArg List.length hdrop
      simp only [List.length_drop, List.length_append] at this
      rw [List.length_take]; omega
    obtain ⟨v, hv, rfl⟩ : ∃ v, rest = v ++ (u ++ (quotes ++ q.rest)) ∧ v.length = taken :=
      ⟨rest.take taken, by rw [← hdrop, List.take_append_drop], htaken⟩
    have he' : ∀ y, readEscape d (v ++ (u ++ (quotes ++ y))) = .ok (decoded, v.length) := by
      intro y
      have hsplit : ∀ z, v ++ (u ++ (quotes ++ z)) = (v ++ (u ++ quotes)) ++ z := by simp
      rw [hv, hsplit] at he
      rw [hsplit]
      exact readEscape_append he (by simp only [List.length_append]; omega)
    refine ⟨'\\' :: d :: (v ++ u), by rw [hr, hv]; simp, ?_, hbody.escape he'⟩
    rw [hadv, Place.advance_advance]
    congr 1
    simp only [List.length_cons, List.length_append]
    omega
  | case6 p c more hr hc hpre =>
    obtain ⟨rfl, rfl⟩ := Prod.mk.inj (Except.ok.inj h)
    obtain ⟨y, hy⟩ := List.isPrefixOf_iff_prefix.mp hpre
    obtain ⟨d, quotes, rfl⟩ := List.exists_cons_of_length_pos hq
    obtain rfl : d = c := by simpa using (List.cons.inj hy).1
    have hadv : (p.advance (d :: quotes).length).rest = y := Place.advance_rest (hr.trans hy.symm)
    exact ⟨[], by rw [hadv, hr, ← hy]; rfl, by simp, .nil hc⟩
  | case7 p c more hr hc hpre ih =>
    obtain ⟨⟨text, q⟩, h₁, h⟩ := Scan.bind_ok h
    obtain ⟨rfl, rfl⟩ := Prod.mk.inj (Except.ok.inj h)
    obtain ⟨u, hu, hadv, hbody⟩ := ih h₁
    have hmore : more = u ++ (quotes ++ q.rest) := by rw [← hu]; simp [Place.advance, hr]
    -- the closing quotes lie within the body, so what follows cannot close it earlier
    have hpre' : ∀ y, ¬ quotes <+: c :: (u ++ (quotes ++ y)) := by
      intro y hp
      have hsplit : ∀ z, c :: (u ++ (quotes ++ z)) = (c :: (u ++ quotes)) ++ z := by simp
      have hle : quotes.length ≤ (c :: (u ++ quotes)).length := by
        simp only [List.length_cons, List.length_append]
        omega
      rw [hsplit, ← List.isPrefixOf_iff_prefix, prefix_append_iff y hle] at hp
      rw [hmore, hsplit, prefix_append_iff q.rest hle] at hpre
      exact hpre hp
    refine ⟨c :: u, by rw [hr, hmore]; rfl, ?_, hbody.cons hc hpre'⟩
    rw [hadv, Place.advance_advance]
    simp only [List.length_cons, Nat.add_comm 1, Nat.add_right_comm]

theorem isMark_of_not_isWordPart {c : Char} (h : Scan.isWordPart c = false) :
    isMark c = false := by
  rw [← Bool.not_eq_true]
  intro hm
  rw [Text.isWordPart_of_isMark hm] at h
  cases h

/-- Whether a literal is marked raw does not depend on what lies beyond a character that belongs to
no word. -/
theorem isRaw_append {v σ : List Char} (h : (∀ c ∈ σ.head?, Scan.isWordPart c = false)
    ∨ ∃ c ∈ v.getLast?, Scan.isWordPart c = false) : isRaw (v ++ σ) = isRaw v := by
  cases σ with
  | nil => rw [List.append_nil]
  | cons c σ =>
    simp only [List.head?_cons, Option.mem_def, Option.some.injEq, forall_eq'] at h
    have hw : Scan.isWordPart c = false → (Text.isWord c || c == '_') = false := id
    rcases v with _ | ⟨a, _ | ⟨b, v⟩⟩
    · have hc : Scan.isWordPart c = false := by simpa using h
      simp [isRaw, isMark_of_not_isWordPart hc]
    · cases ha : isMark a with
      | false => simp [isRaw, ha]
      | true =>
        rcases h with hc | ⟨d, hd, hc⟩
        · simp [isRaw, ha, isMark_of_not_isWordPart hc, hw hc]
        · obtain rfl : a = d := by simpa using hd
          rw [isMark_of_not_isWordPart hc] at ha; cases ha
    · cases ha : isMark a with
      | false => simp [isRaw, ha]
      | true =>
        cases hb : isMark b with
        | false => simp [isRaw, ha, hb]
        | true =>
          cases v with
          | cons d v => simp [isRaw, ha, hb]
          | nil =>
            rcases h with hc | ⟨d, hd, hc⟩
            · simp [isRaw, ha, hb, hw hc]
            · obtain rfl : b = d := by simpa using hd
              rw [isMark_of_not_isWordPart hc] at hb; cases hb

/-! ## String literals -/

/-- What follows a piece of a text, here or elsewhere, starts in the same way or does not go on
with the piece. -/
def Follows (u y y' : List Char) : Prop := y'.head? = y.head? ∨ Seam u y'

theorem Follows.head {u y y' : List Char} (h : Follows u y y')
    (hu : ∃ x ∈ u.getLast?, isBoundary x = false) :
    y'.head? = y.head? ∨ ∀ d ∈ y'.head?, isBoundary d = true := by
  refine h.imp_right fun hs d hd => ?_
  obtain ⟨x, hx, hb⟩ := hu
  rcases hs x hx d hd with h | h
  · rw [hb] at h; cases h
  · exact h

theorem openingQuotes_eq_or (c : Char) (p : Place) :
    openingQuotes c p = [c, c, c] ∧ [c, c, c] <+: p.rest ∨
      openingQuotes c p = [c] ∧ ¬ [c, c, c] <+: p.rest := by
  unfold openingQuotes
  split
  · next h => exact .inl ⟨rfl, List.isPrefixOf_iff_prefix.mp h⟩
  · next h => exact .inr ⟨rfl, fun hp => h (List.isPrefixOf_iff_prefix.mpr hp)⟩

/-- A literal opens with as many quotes wherever it stands. -/
theorem openingQuotes_move {c : Char} {p p' : Place} {u y y' : List Char}
    (hc : isBoundary c = false)
    (hp : p.rest = openingQuotes c p ++ u ++ openingQuotes c p ++ y)
    (hp' : p'.rest = openingQuotes c p ++ u ++ openingQuotes c p ++ y')
    (hf : y'.head? = y.head? ∨ ∀ d ∈ y'.head?, isBoundary d = true) :
    openingQuotes c p' = openingQuotes c p := by
  rcases openingQuotes_eq_or c p with ⟨hq, -⟩ | ⟨hq, hne⟩
  · rcases openingQuotes_eq_or c p' with ⟨hq', -⟩ | ⟨-, hne'⟩
    · rw [hq, hq']
    · rw [hp', hq] at hne'
      exact absurd ⟨u ++ ([c, c, c] ++ y'), by simp⟩ hne'
  · rcases openingQuotes_eq_or c p' with ⟨-, hpre⟩ | ⟨hq', -⟩
    · rw [hp', hq] at hpre
      rw [hp, hq] at hne
      -- three quotes could only come to stand together at the end of the literal
      cases u with
      | cons d u =>
        have hlen : [c, c, c].length ≤ ([c] ++ d :: u ++ [c]).length := by simp
        refine absurd ?_ hne
        rw [← List.isPrefixOf_iff_prefix, prefix_append_iff _ hlen] at hpre ⊢
        exact hpre
      | nil =>
        have hy : y'.head? = some c := by
          obtain ⟨t, ht⟩ := hpre
          simp only [List.append_nil, List.cons_append, List.nil_append, List.cons.injEq,
            true_and] at ht
          rw [← ht]; rfl
        rcases hf with hf | hf
        · obtain ⟨t, rfl⟩ := List.head?_eq_some_iff.mp (hf ▸ hy)
          exact absurd ⟨t, by simp⟩ hne
        · rw [hf c hy] at hc; cases hc
    · rw [hq, hq']

/-- A string literal is read in the same way wherever it stands. -/
theorem readString_move {c : Char} {p q : Place} {text : List Char} (hc : c = '\x27' ∨ c = '"')
    (hp : p.rest.head? = some c) (h : readString c p = .ok (text, q)) :
    ∃ u, u ≠ [] ∧ p.rest = u ++ q.rest ∧ q = p.advance u.length ∧
      ∀ (p' : Place) (y : List Char), p'.rest = u ++ y → Follows u q.rest y →
        isRaw p'.seen = isRaw p.seen → readString c p' = .ok (text, p'.advance u.length) := by
  have hcb : isBoundary c = false := by rcases hc with rfl | rfl <;> decide
  have hpos := Scan.length_openingQuotes_pos c p
  obtain ⟨u, hu, hq, hmove⟩ := readBody_append hpos h
  obtain ⟨t, ht⟩ : openingQuotes c p <+: p.rest := by
    rcases openingQuotes_eq_or c p with ⟨hq, hpre⟩ | ⟨hq, -⟩
    · rwa [hq]
    · obtain ⟨t, ht⟩ := List.head?_eq_some_iff.mp hp
      exact ⟨t, by rw [hq, ht]; rfl⟩
  have ht := ht.symm
  rw [Place.advance_rest ht] at hu
  have hrest : p.rest = openingQuotes c p ++ u ++ openingQuotes c p ++ q.rest := by
    rw [ht, hu]; simp
  have hlast : ∃ x ∈ (openingQuotes c p ++ u ++ openingQuotes c p).getLast?,
      isBoundary x = false := by
    refine ⟨c, ?_, hcb⟩
    rcases openingQuotes_eq_or c p with ⟨hq, -⟩ | ⟨hq, -⟩ <;>
      · rw [hq, List.getLast?_append]; rfl
  refine ⟨_, by simp [List.ne_nil_of_length_pos hpos], hrest, ?_, fun p' y hp' hf hraw => ?_⟩
  · rw [hq, Place.advance_advance]
    simp only [List.length_append]
    congr 1; omega
  · rw [readString, openingQuotes_move hcb hrest hp' (hf.head hlast), hraw,
      hmove p'.pos (p'.advance (openingQuotes c p).length) y, Place.advance_advance]
    · simp only [List.length_append]
      congr 3; omega
    · exact Place.advance_rest (by rw [hp']; simp)

/-! ## Numbers and words -/

theorem takeWhile_move {f : Char → Bool} {u y y' : List Char}
    (h : ((u ++ y).takeWhile f).length = u.length)
    (hf : y'.head? = y.head? ∨ ∀ d ∈ y'.head?, f d = false) :
    (∀ d ∈ u, f d = true) ∧ ((u ++ y').takeWhile f).length = u.length := by
  induction u with
  | nil =>
    refine ⟨by simp, ?_⟩
    rcases hf with hf | hf
    · cases y with
      | nil => rw [List.head?_eq_none_iff.mp hf]; rfl
      | cons c y =>
        obtain ⟨z, rfl⟩ := List.head?_eq_some_iff.mp hf
        cases hc : f c with
        | true => simp [hc] at h
        | false => simp [hc]
    · cases y' with
      | nil => rfl
      | cons d y' => simp [hf d rfl]
  | cons c u ih =>
    cases hc : f c with
    | false => simp [hc] at h
    | true =>
      simp only [List.cons_append, List.takeWhile_cons_of_pos hc, List.length_cons] at h ⊢
      obtain ⟨hu, hlen⟩ := ih (Nat.succ.inj h)
      exact ⟨List.forall_mem_cons.mpr ⟨hc, hu⟩, by rw [hlen]⟩

theorem numberLength_of_boundary {hex : Bool} {last : Char} {y : List Char}
    (h : ∀ d ∈ y.head?, isBoundary d = true) : numberLength hex last y = 0 := by
  cases y with
  | nil => rfl
  | cons d y =>
    obtain ⟨hw, hs⟩ := Text.not_inNumber_of_isBoundary (h d rfl)
    simp [numberLength, hw, hs]

/-- A number reaches as far wherever it stands. -/
theorem numberLength_move {hex : Bool} {last : Char} {u y y' : List Char}
    (h : numberLength hex last (u ++ y) = u.length)
    (hf : y'.head? = y.head? ∨ ∀ d ∈ y'.head?, isBoundary d = true) :
    numberLength hex last (u ++ y') = u.length := by
  induction u generalizing last with
  | nil =>
    rcases hf with hf | hf
    · cases y with
      | nil => rw [List.head?_eq_none_iff.mp hf]; rfl
      | cons c y =>
        obtain ⟨z, rfl⟩ := List.head?_eq_some_iff.mp hf
        simp only [List.nil_append, numberLength, List.length_nil] at h ⊢
        split at h
        · cases h
        · next hw =>
          split at h
          · cases h
          · next hs => rw [if_neg hw, if_neg hs]
    · exact numberLength_of_boundary hf
  | cons c u ih =>
    simp only [List.cons_append, numberLength, List.length_cons] at h ⊢
    split at h
    · next hw => rw [if_pos hw, ih (Nat.succ.inj h)]
    · next hw =>
      split at h
      · next hs => rw [if_neg hw, if_pos hs, ih (Nat.succ.inj h)]
      · cases h

theorem numberLength_le (hex : Bool) (last : Char) (rest : List Char) :
    numberLength hex last rest ≤ rest.length := by
  induction rest generalizing last with
  | nil => exact Nat.le_refl _
  | cons c rest ih =>
    have := ih c
    simp only [numberLength, List.length_cons]
    split
    · omega
    · split <;> omega

/-- The last character of a number is no boundary. -/
theorem not_isBoundary_of_number {hex : Bool} {last : Char} {u y : List Char}
    (h : numberLength hex last (u ++ y) = u.length) : ∀ d ∈ u, isBoundary d = false := by
  induction u generalizing last with
  | nil => simp
  | cons c u ih =>
    simp only [List.cons_append, numberLength, List.length_cons] at h
    intro d hd
    have hc : isBoundary c = false ∧ ∃ last, numberLength hex last (u ++ y) = u.length := by
      rw [← Bool.not_eq_true]
      refine ⟨fun hb => ?_, ?_⟩
      · obtain ⟨hw, hs⟩ := Text.not_inNumber_of_isBoundary hb
        simp [hw, hs] at h
      · split at h
        · exact ⟨_, Nat.succ.inj h⟩
        · split at h
          · exact ⟨_, Nat.succ.inj h⟩
          · cases h
    rcases List.mem_cons.mp hd with rfl | hd
    · exact hc.1
    · exact ih hc.2.choose_spec d hd

theorem not_isHex {c : Char} {y : List Char} (h : ∀ d ∈ y.head?, Text.isWord d = false) :
    isHex (c :: y) = false := by
  have hx : ∀ d : Char, Text.isWord d = false → d ≠ 'x' ∧ d ≠ 'X' := by
    intro d hd
    refine ⟨?_, ?_⟩ <;> rintro rfl <;> exact absurd hd (by decide)
  cases y with
  | nil => simp [isHex]
  | cons d y => simp [isHex, hx d (h d rfl)]

/-- Whether a number is hexadecimal is seen from its own characters. -/
theorem isHex_move {c : Char} {u y y' : List Char}
    (h : numberLength (isHex (c :: (u ++ y))) c (u ++ y) = u.length)
    (hf : y'.head? = y.head? ∨ ∀ d ∈ y'.head?, isBoundary d = true) :
    isHex (c :: (u ++ y')) = isHex (c :: (u ++ y)) := by
  cases u with
  | cons d u => rfl
  | nil =>
    rcases hf with hf | hf
    · simp [isHex, hf]
    · have hy : ∀ d ∈ y.head?, Text.isWord d = false := by
        cases y with
        | nil => simp
        | cons d y =>
          intro e he
          obtain rfl : d = e := Option.some.inj he
          rw [← Bool.not_eq_true]
          intro hw
          simp [numberLength, hw] at h
      have hy' : ∀ d ∈ y'.head?, Text.isWord d = false := by
        intro d hd
        have := (Text.not_inNumber_of_isBoundary (hf d hd)).1
        simp only [Bool.or_eq_false_iff] at this
        exact this.1.1
      rw [List.nil_append, List.nil_append, not_isHex hy, not_isHex hy']

end Literal

namespace Scan

open Text (isBoundary Seam)
open Literal (isRaw Follows)

theorem isWordPart_of_letter {c : Char} (h : (Text.isLetter c || c == '_') = true) :
    isWordPart c = true := by
  simp only [Bool.or_eq_true] at h
  rcases h with h | h <;> simp [isWordPart, Text.isWord, h]

theorem leafOf_eq {kind : LeafKind} {p : Place} {c : Char} {w y : List Char}
    (h : p.rest = c :: (w ++ y)) : leafOf kind p (w.length + 1)
      = (.leaf kind (String.ofList (c :: w)) p.pos (p.pos + (w.length + 1)),
        p.advance (w.length + 1)) := by
  have h : p.rest = (c :: w) ++ y := h
  rw [leafOf, ← List.length_cons (a := c), Place.advance_pos h, h]
  simp

/-- A leaf without decoded text is the same leaf wherever its characters stand. -/
theorem leafOf_move {kind : LeafKind} {p q : Place} {a : Atom} {c : Char} {more : List Char}
    {n : Nat} (hp : p.rest = c :: more) (hn : n ≤ more.length)
    (h : leafOf kind p (n + 1) = (a, q)) :
    ∃ w v, w.length = n ∧ more = w ++ q.rest ∧ q = p.advance (w.length + 1)
      ∧ a = .leaf kind v p.pos (p.pos + (w.length + 1))
      ∧ ∀ (p' : Place) (y : List Char), p'.rest = c :: (w ++ y) →
        leafOf kind p' (w.length + 1)
          = (.leaf kind v p'.pos (p'.pos + (w.length + 1)), p'.advance (w.length + 1)) := by
  obtain ⟨w, y, rfl, rfl⟩ : ∃ w y, w.length = n ∧ more = w ++ y :=
    ⟨more.take n, more.drop n, by rw [List.length_take]; omega, by rw [List.take_append_drop]⟩
  rw [leafOf_eq hp] at h
  obtain ⟨rfl, rfl⟩ := Prod.mk.inj h
  have hp' : p.rest = (c :: w) ++ y := hp
  refine ⟨w, _, rfl, ?_, rfl, rfl, fun p' y hp' => leafOf_eq hp'⟩
  rw [← List.length_cons (a := c), Place.advance_rest hp']

/-- A leaf is read again as the same leaf wherever its characters stand, if what follows them
starts in the same way or behind a boundary, and if a literal stays marked as it was. -/
theorem readLeaf_move {p q : Place} {c : Char} {more : List Char} {a : Atom}
    (hp : p.rest = c :: more) (h : readLeaf p c more = .ok (a, q)) :
    ∃ kind w v, more = w ++ q.rest ∧ q = p.advance (w.length + 1)
      ∧ a = .leaf kind v p.pos (p.pos + (w.length + 1))
      ∧ ∀ (p' : Place) (y : List Char), p'.rest = c :: (w ++ y) →
        Follows (c :: w) q.rest y → (c = '\x27' ∨ c = '"' → isRaw p'.seen = isRaw p.seen) →
        readLeaf p' c (w ++ y)
          = .ok (.leaf kind v p'.pos (p'.pos + (w.length + 1)), p'.advance (w.length + 1)) := by
  unfold readLeaf at h
  split at h
  · next hc =>
    -- a literal: the quotes that close it are its own
    obtain ⟨⟨text, q'⟩, hs, h⟩ := bind_ok h
    obtain ⟨rfl, rfl⟩ := Prod.mk.inj (Except.ok.inj h)
    obtain ⟨u, hu, hrest, hq, hmove⟩ := Literal.readString_move hc (by rw [hp]; rfl) hs
    obtain ⟨d, w, rfl⟩ := List.exists_cons_of_ne_nil hu
    have hcons := hp.symm.trans hrest
    rw [List.cons_append, List.cons.injEq] at hcons
    obtain ⟨rfl, hmore⟩ := hcons
    refine ⟨.string, w, String.ofList text, hmore, hq, ?_, fun p' y hp' hf hraw => ?_⟩
    · rw [hq, Place.advance_pos hrest]; rfl
    · have hpos : (p'.advance (w.length + 1)).pos = p'.pos + (w.length + 1) :=
        Place.advance_pos (u := c :: w) hp'
      rw [readLeaf, if_pos hc, hmove p' y hp' hf (hraw hc)]
      simp only [bind, Except.bind, pure, Except.pure, List.length_cons, hpos]
  next hc =>
  split at h
  · next hd =>
    -- a number ends before what belongs to no number
    obtain h := Except.ok.inj h
    obtain ⟨w, v, hlen, hmore, hq, ha, hmove⟩ :=
      leafOf_move hp (Literal.numberLength_le _ c more) h
    refine ⟨.number, w, v, hmore, hq, ha, fun p' y hp' hf _ => ?_⟩
    rw [hmore] at hlen
    have hlast : ∃ x ∈ (c :: w).getLast?, isBoundary x = false := by
      refine ⟨_, List.getLast?_eq_some_getLast (List.cons_ne_nil c w), ?_⟩
      rcases List.mem_cons.mp (List.getLast_mem (List.cons_ne_nil c w)) with he | he
      · rw [he]
        exact Text.not_isBoundary_of_isWordPart (Text.isWordPart_of_isDigit hd)
      · exact Literal.not_isBoundary_of_number hlen.symm _ he
    have hf' := hf.head hlast
    rw [readLeaf, if_neg hc, if_pos hd, Literal.isHex_move hlen.symm hf',
      Literal.numberLength_move hlen.symm hf', hmove p' y hp']
  next hd =>
  split at h
  · next hl =>
    -- a word ends before what belongs to no word
    obtain h := Except.ok.inj h
    obtain ⟨w, v, hlen, hmore, hq, ha, hmove⟩ :=
      leafOf_move hp (more.takeWhile_sublist isWordPart).length_le h
    refine ⟨.ident, w, v, hmore, hq, ha, fun p' y hp' hf _ => ?_⟩
    rw [hmore] at hlen
    have hword : ∀ d ∈ c :: w, isWordPart d = true :=
      List.forall_mem_cons.mpr
        ⟨isWordPart_of_letter hl, (Literal.takeWhile_move hlen.symm (.inl rfl)).1⟩
    have hlast : ∃ x ∈ (c :: w).getLast?, isBoundary x = false :=
      ⟨_, List.getLast?_eq_some_getLast (List.cons_ne_nil c w),
        Text.not_isBoundary_of_isWordPart (hword _ (List.getLast_mem _))⟩
    have hf' := (hf.head hlast).imp_right fun hb d hd => Text.isWordPart_of_isBoundary (hb d hd)
    rw [readLeaf, if_neg hc, if_neg hd, if_pos hl,
      (Literal.takeWhile_move hlen.symm hf').2, hmove p' y hp']
  · next hl =>
    obtain h := Except.ok.inj h
    obtain ⟨w, v, hlen, hmore, hq, ha, hmove⟩ := leafOf_move hp (Nat.zero_le _) h
    obtain rfl := List.length_eq_zero_iff.mp hlen
    refine ⟨.punct, [], v, hmore, hq, ha, fun p' y hp' hf _ => ?_⟩
    rw [readLeaf, if_neg hc, if_neg hd, if_neg hl]
    exact congrArg Except.ok (hmove p' y hp')

end Scan

end MarkupTemplate
