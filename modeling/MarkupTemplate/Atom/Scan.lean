import MarkupTemplate.Atom.Literal

/-!
# Scanning

A text is scanned into atoms from left to right. Blanks separate atoms, brackets nest.

* `readLeaf`: the atom without inner structure at a place, and the place after it.
* `readSequence`: the atoms up to the end of the text or up to the bracket that closes them.
* `scan`: the atoms of a text from an offset on; positions are offsets into the whole text.
* `length_readLeaf_lt`: a leaf takes at least one character.
-/

namespace MarkupTemplate.Scan

/-- True of a character that goes on with a word. -/
def isWordPart (c : Char) : Bool := Text.isWord c || c == '_'

/-- The leaf of `n` characters at a place, and the place after it. -/
def leafOf (kind : LeafKind) (p : Place) (n : Nat) : Atom × Place :=
  (.leaf kind (String.ofList (p.rest.take n)) p.pos (p.advance n).pos, p.advance n)

/-- Reads the leaf at a place before the character `c` and then `more`. -/
def readLeaf (p : Place) (c : Char) (more : List Char) : Except ScanFault (Atom × Place) :=
  if c = '\x27' ∨ c = '"' then do
    let (text, q) ← Literal.readString c p
    return (.leaf .string (String.ofList text) p.pos q.pos, q)
  else if Text.isDigit c then
    .ok (leafOf .number p (Literal.numberLength (Literal.isHex (c :: more)) c more + 1))
  else if Text.isLetter c || c == '_' then
    .ok (leafOf .ident p ((more.takeWhile isWordPart).length + 1))
  else .ok (leafOf .punct p 1)

theorem length_readBody_le {opened raw quotes} (p : Place) {text q}
    (h : Literal.readBody opened raw quotes p = .ok (text, q)) :
    q.rest.length ≤ p.rest.length := by
  fun_induction Literal.readBody opened raw quotes p generalizing text q with
  | case1 => simp at h
  | case2 => simp at h
  | case3 p c d rest hc hraw ih | case5 p c d rest hc hraw decoded taken he ih
  | case7 p c more hp hc hpre ih =>
    simp only [bind, Except.bind] at h
    split at h
    · simp at h
    · next v hv =>
      have := ih hv
      simp only [pure, Except.pure, Except.ok.injEq, Prod.mk.injEq] at h
      rw [← h.2]; simp [Place.length_advance] at this; omega
  | case4 => simp at h
  | case6 p c more hp hc hpre =>
    simp only [Except.ok.injEq, Prod.mk.injEq] at h
    rw [← h.2]; simp [Place.length_advance]

theorem length_openingQuotes_pos (q : Char) (p : Place) :
    0 < (Literal.openingQuotes q p).length := by
  unfold Literal.openingQuotes; split <;> simp

theorem length_readLeaf_lt {p : Place} {c : Char} {more : List Char} (hp : p.rest = c :: more)
    {a : Atom} {q : Place} (h : readLeaf p c more = .ok (a, q)) :
    q.rest.length < p.rest.length := by
  have hne : p.rest ≠ [] := by simp [hp]
  unfold readLeaf at h
  split at h
  · simp only [bind, Except.bind] at h
    split at h
    · simp at h
    · next v hv =>
      simp only [pure, Except.pure, Except.ok.injEq, Prod.mk.injEq] at h
      have := length_readBody_le _ hv
      rw [← h.2]
      exact Nat.lt_of_le_of_lt this
        (Place.length_advance_lt (length_openingQuotes_pos c p) hne)
  · split at h
    · simp only [leafOf, Except.ok.injEq, Prod.mk.injEq] at h
      rw [← h.2]; exact Place.length_advance_lt (by omega) hne
    · split at h <;>
      · simp only [leafOf, Except.ok.injEq, Prod.mk.injEq] at h
        rw [← h.2]; exact Place.length_advance_lt (by omega) hne

/-- A reading together with the fact that it moved on. -/
def moved (p : Place) (r : Except ScanFault (Atom × Place))
    (h : ∀ a q, r = .ok (a, q) → q.rest.length < p.rest.length) :
    Except ScanFault (Atom × { q : Place // q.rest.length < p.rest.length }) :=
  match r, h with
  | .ok (a, q), h => .ok (a, ⟨q, h a q rfl⟩)
  | .error e, _ => .error e

/-- Reads atoms up to the end of the text or, inside the bracket `opened` at an offset, up to the
character that closes it; the place returned is before that character. -/
def readSequence (opened : Option (Bracket × Nat)) (start : Place) :
    Except ScanFault (List Atom × { q : Place // q.rest.length ≤ start.rest.length }) :=
  let p := start.skipBlanks
  have hp : p.rest.length ≤ start.rest.length := start.length_skipBlanks_le
  match hr : p.rest with
  | [] =>
    match opened with
    | none => .ok ([], ⟨p, hp⟩)
    | some (b, offset) => .error ⟨.unterminatedGroup b.opener, offset⟩
  | c :: more =>
    have hne : p.rest ≠ [] := by simp [hr]
    if Bracket.closedBy? c |>.isSome then
      if opened.map (·.1) = Bracket.closedBy? c then .ok ([], ⟨p, hp⟩)
      else .error ⟨.unexpectedCloser c, p.pos⟩
    else match Bracket.openedBy? c with
    | some b => do
      let inside := p.advance 1
      have hi : inside.rest.length < p.rest.length := Place.length_advance_lt Nat.one_pos hne
      let (children, ⟨q, hq⟩) ← readSequence (some (b, p.pos)) inside
      let after := q.advance 1
      have ha : after.rest.length ≤ q.rest.length := by simp [after, Place.length_advance]
      let atom := Atom.group b p.pos after.pos (String.ofList (inside.upTo q)) children
      let (atoms, ⟨r, hr⟩) ← readSequence opened after
      return (atom :: atoms, ⟨r, by omega⟩)
    | none => do
      let (atom, ⟨q, hq⟩) ← moved p (readLeaf p c more) fun _ _ h => length_readLeaf_lt hr h
      let (atoms, ⟨r, hr⟩) ← readSequence opened q
      return (atom :: atoms, ⟨r, by omega⟩)
termination_by start.rest.length
decreasing_by
  · exact Nat.lt_of_lt_of_le hi hp
  · exact (by omega : after.rest.length < start.rest.length)
  · omega

end Scan

/-- The atoms of a text from an offset on. -/
def scan (text : List Char) (offset : Nat) : Except ScanFault (List Atom) :=
  (Scan.readSequence none (Place.ofOffset text offset)).map (·.1)

end MarkupTemplate
