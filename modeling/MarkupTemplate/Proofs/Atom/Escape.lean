import MarkupTemplate.Atom.Literal

/-!
# Escapes

An escape is of one of a few kinds, told apart by the character after its backslash. What holds of
the reading of an escape is shown for each kind.

* `Literal.ReadsEscape`: the kinds of escapes and what each is read as.
* `Literal.readEscape_eq_iff`: an escape is read as its kind says.
-/
namespace MarkupTemplate

namespace Literal

/-- What an escape is read as whose character after the backslash is `c`. -/
inductive ReadsEscape (c : Char) (rest : List Char) :
    Except ScanCause (List Char × Nat) → Prop where
  | simple {text : List Char} (hs : simpleEscape? c = some text) :
      ReadsEscape c rest (.ok (text, 0))
  | lineBreak (hc : c = '\r') :
      ReadsEscape c rest (.ok ([], if rest.head? = some '\n' then 1 else 0))
  | code {width n : Nat} {d : Char} (hw : hexWidth? c = some width)
      (hlen : (rest.take width).length = width) (hn : hexNumber? (rest.take width) = some n)
      (hd : charOf? n = some d) : ReadsEscape c rest (.ok ([d], width))
  | noCharacter {width n : Nat} (hw : hexWidth? c = some width)
      (hlen : (rest.take width).length = width) (hn : hexNumber? (rest.take width) = some n)
      (hd : charOf? n = none) :
      ReadsEscape c rest (.error (if n < Word.bound 32 then .invalidEscape c else .codeOverflow))
  | noCode {width : Nat} (hw : hexWidth? c = some width)
      (hn : (rest.take width).length = width → hexNumber? (rest.take width) = none) :
      ReadsEscape c rest (.error (.invalidEscape c))
  | octal {more : List Char} (ho : isOctal c = true)
      (hmore : (rest.take 2).takeWhile isOctal = more) :
      ReadsEscape c rest
        (.ok ([Char.ofNat ((c :: more).foldl (fun acc d => acc * 8 + (d.toNat - 48)) 0)],
          more.length))
  | named {body name : List Char} {d : Char} (hc : c = 'N')
      (hrest : rest = Bracket.curly.opener :: body)
      (hname : body.takeWhile (· != Bracket.curly.closer) = name) (hlt : name.length < body.length)
      (hd : Text.named? name = some d) : ReadsEscape c rest (.ok ([d], name.length + 2))
  | unknown {body name : List Char} (hc : c = 'N') (hrest : rest = Bracket.curly.opener :: body)
      (hname : body.takeWhile (· != Bracket.curly.closer) = name) (hlt : name.length < body.length)
      (hd : Text.named? name = none) :
      ReadsEscape c rest (.error (.unknownCharacter (String.ofList name)))
  | unclosed {body : List Char} (hc : c = 'N') (hrest : rest = Bracket.curly.opener :: body)
      (hle : body.length ≤ (body.takeWhile (· != Bracket.curly.closer)).length) :
      ReadsEscape c rest (.error (.invalidEscape 'N'))
  | other (hs : simpleEscape? c = none) (hr : c ≠ '\r') (hw : hexWidth? c = none)
      (ho : isOctal c = false) (hN : c = 'N' → rest.head? ≠ some Bracket.curly.opener) :
      ReadsEscape c rest (.ok (['\\', c], 0))

variable {c : Char} {rest : List Char}

theorem readsEscape_readEscape (c : Char) (rest : List Char) :
    ReadsEscape c rest (readEscape c rest) := by
  unfold readEscape
  split
  · next hs => exact .simple hs
  next hs =>
  split
  · next hr => exact .lineBreak hr
  next hr =>
  split
  · next width hw =>
    dsimp only
    split
    · next hlen =>
      split
      · next n hn =>
        split
        · next d hd => exact .code hw hlen hn hd
        · next hd => exact .noCharacter hw hlen hn hd
      · next hn => exact .noCode hw fun _ => hn
    · next hlen => exact .noCode hw fun h => absurd h hlen
  next hw =>
  split
  · next ho => exact .octal ho rfl
  next ho =>
  split
  · next hN =>
    obtain ⟨body, rfl⟩ := List.head?_eq_some_iff.mp hN.2
    simp only [List.drop_succ_cons, List.drop_zero, List.length_cons, Nat.add_lt_add_iff_right]
    split
    · next hlt =>
      split
      · next d hd => exact .named hN.1 rfl rfl hlt hd
      · next hd => exact .unknown hN.1 rfl rfl hlt hd
    · next hlt => exact .unclosed hN.1 rfl (Nat.le_of_not_lt hlt)
  · next hN => exact .other hs hr hw (Bool.of_not_eq_true ho) fun hc h => hN ⟨hc, h⟩

theorem hexWidth?_eq_some {width : Nat} (h : hexWidth? c = some width) :
    c = 'x' ∨ c = 'u' ∨ c = 'U' := by
  unfold hexWidth? at h
  split at h
  · exact .inl rfl
  · exact .inr (.inl rfl)
  · exact .inr (.inr rfl)
  · cases h

/-- Octal digits are of no other kind. -/
theorem of_isOctal (h : isOctal c = true) :
    simpleEscape? c = none ∧ c ≠ '\r' ∧ hexWidth? c = none := by
  have hne : ∀ d, isOctal d = false → c ≠ d := by
    rintro d hd rfl
    rw [h] at hd
    cases hd
  refine ⟨?_, hne _ (by decide), ?_⟩
  · unfold simpleEscape?
    split <;> first | rfl | exact absurd rfl (hne _ (by decide))
  · unfold hexWidth?
    split <;> first | rfl | exact absurd rfl (hne _ (by decide))

/-- Hexadecimal escapes are of no other kind. -/
theorem readEscape_of_hexWidth? {width : Nat} (h : hexWidth? c = some width) :
    readEscape c rest =
      if (rest.take width).length = width then
        match hexNumber? (rest.take width) with
        | some n =>
          match charOf? n with
          | some d => .ok ([d], width)
          | none => .error (if n < Word.bound 32 then .invalidEscape c else .codeOverflow)
        | none => .error (.invalidEscape c)
      else .error (.invalidEscape c) := by
  obtain rfl | rfl | rfl := hexWidth?_eq_some h <;> cases h <;> rfl

/-- The escape of a name in braces. -/
theorem readEscape_of_braces {body name : List Char}
    (hname : body.takeWhile (· != Bracket.curly.closer) = name) :
    readEscape 'N' (Bracket.curly.opener :: body) =
      if name.length < body.length then
        match Text.named? name with
        | some d => .ok ([d], name.length + 2)
        | none => .error (.unknownCharacter (String.ofList name))
      else .error (.invalidEscape 'N') := by
  have hlt : name.length < body.length ↔ name.length + 1 < body.length + 1 :=
    Nat.add_lt_add_iff_right.symm
  subst hname
  simp only [hlt]
  rfl

theorem ReadsEscape.eq {r : Except ScanCause (List Char × Nat)} (h : ReadsEscape c rest r) :
    readEscape c rest = r := by
  cases h with
  | simple hs => simp only [readEscape, hs]
  | lineBreak hc =>
    subst hc
    rfl
  | code hw hlen hn hd => rw [readEscape_of_hexWidth? hw, if_pos hlen, hn]; simp only [hd]
  | noCharacter hw hlen hn hd => rw [readEscape_of_hexWidth? hw, if_pos hlen, hn]; simp only [hd]
  | noCode hw hn =>
    rw [readEscape_of_hexWidth? hw]
    split
    · next hlen => rw [hn hlen]
    · rfl
  | octal ho hmore =>
    obtain ⟨hs, hr, hw⟩ := of_isOctal ho
    simp only [readEscape, hs, if_neg hr, hw, if_pos ho, hmore]
  | named hc hrest hname hlt hd =>
    subst hc hrest
    rw [readEscape_of_braces hname, if_pos hlt, hd]
  | unknown hc hrest hname hlt hd =>
    subst hc hrest
    rw [readEscape_of_braces hname, if_pos hlt, hd]
  | unclosed hc hrest hle =>
    subst hc hrest
    rw [readEscape_of_braces rfl, if_neg (Nat.not_lt_of_le hle)]
  | other hs hr hw ho hN =>
    have hno : ¬ (c = 'N' ∧ rest.head? = some Bracket.curly.opener) := fun h => hN h.1 h.2
    simp only [readEscape, hs, if_neg hr, hw, ho, if_neg hno]
    rfl

/-- An escape is read as its kind says. -/
theorem readEscape_eq_iff {r : Except ScanCause (List Char × Nat)} :
    readEscape c rest = r ↔ ReadsEscape c rest r := by
  refine ⟨?_, ReadsEscape.eq⟩
  rintro rfl
  exact readsEscape_readEscape c rest

end Literal

end MarkupTemplate
