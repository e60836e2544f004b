import MarkupTemplate.Cursor
import MarkupTemplate.Proofs.Text.Trim
import MarkupTemplate.Proofs.Token.Longest

/-!
# Where a brace group is split

The text in a brace group is split at its first semicolon that, when the text is scanned by itself,
stands in no bracket and no string. What stands before it is the expression, what stands behind it
the format spec; neither loses more than the blanks at its ends.

* `Cuts`: the two sides of the first top-level semicolon.
* `Munched.find_semicolon`: the first semicolon of the tokens is that of the atoms.
* `Scanned.scan_group`: what stands in a group, scanned by itself.
* `splitSpec_cuts`, `expression_cuts`: the split of a brace group.
-/
namespace MarkupTemplate

/-! ## Semicolons -/

/-- True of a semicolon. -/
def Atom.isSemicolon : Atom → Bool
  | leaf .punct value _ _ => value == ";"
  | _ => false

/-- A text with the given atoms is cut at the first semicolon among them, which belongs to neither
side; without one there is no second side. -/
inductive Cuts (text : List Char) (atoms : List Atom) : List Char → Option (List Char) → Prop where
  | uncut (h : ∀ a ∈ atoms, a.isSemicolon = false) : Cuts text atoms text none
  | cut {before after : List Atom} {k stop : Nat}
      (h : atoms = before ++ .leaf .punct ";" k stop :: after)
      (hbefore : ∀ a ∈ before, a.isSemicolon = false) :
      Cuts text atoms (text.take k) (some (text.drop (k + 1)))

theorem Atom.eq_of_isSemicolon {a : Atom} (h : a.isSemicolon = true) :
    a = .leaf .punct ";" a.pos a.stop := by
  unfold isSemicolon at h
  split at h
  · obtain rfl := eq_of_beq h
    rfl
  · cases h

@[simp] theorem Atom.isSemicolon_shift (n : Nat) (a : Atom) :
    (a.shift n).isSemicolon = a.isSemicolon := by
  cases a with
  | leaf kind value pos stop => cases kind <;> rfl
  | group => rfl

theorem semicolon_not_mem_markers : ∀ m ∈ markers, ';' ∉ m.1 := by decide

theorem Spell.not_isSemicolon {m : List Char × TokenKind} (hm : m ∈ markers) {as : List Atom}
    (h : Spell m.1 as) {a : Atom} (ha : a ∈ as) : a.isSemicolon = false := by
  obtain ⟨c, hc, pos, stop, rfl⟩ := h.mem ha
  refine beq_eq_false_iff_ne.mpr fun he => semicolon_not_mem_markers m hm ?_
  rwa [← toString_inj (c := c) (d := ';') he]

/-- A token of some atoms is a semicolon exactly if the first of them is one; then it is the only
one. -/
theorem Munch.find_semicolon {as rest : List Atom} {t : Token} (h : Munch as rest t) :
    [t].find? (·.has .punct ";")
      = (as.find? Atom.isSemicolon).map fun a => .flat .punct ";" a.pos a.stop := by
  cases h with
  | @leaf kind value pos stop _ hk =>
    have hno : (Token.flat (leafTokenKind kind value) value pos stop).has .punct ";" = false := by
      rw [← Bool.not_eq_true]
      intro ht
      exact hk (punct_of_leafTokenKind (Token.kind_of_has ht).1)
    rw [List.find?_cons_of_neg (by simp [hno])]
    cases kind with
    | punct => exact absurd rfl hk
    | ident => rfl
    | string => rfl
    | number => rfl
  | @group b => cases b <;> rfl
  | @marker m _ _ a z hm hs =>
    have hno : (Token.flat m.2 (String.ofList m.1) a.pos z.stop).has .punct ";" = false := by
      rw [← Bool.not_eq_true]
      intro ht
      exact not_punct_of_mem_markers m hm (Token.kind_of_has ht).1
    have hnone : as.find? Atom.isSemicolon = none := by
      refine List.find?_eq_none.mpr fun x hx => ?_
      rw [hs.not_isSemicolon hm hx]
      decide
    rw [List.find?_cons_of_neg (by simp [hno]), hnone]
    rfl
  | @single value pos stop =>
    by_cases hv : value = ";"
    · subst hv
      rfl
    · have hno : (value == ";") = false := by simpa using hv
      simp [Token.has, Token.flat, Token.value, Atom.isSemicolon, hno]

/-- The first semicolon of the tokens is the first of the atoms. -/
theorem Munched.find_semicolon {as : List Atom} {ts : List Token} (h : Munched as ts) :
    ts.find? (·.has .punct ";")
      = (as.find? Atom.isSemicolon).map fun a => .flat .punct ";" a.pos a.stop := by
  induction h with
  | nil => rfl
  | @cons A rest t ts hA _ ih =>
    rw [← List.singleton_append, List.find?_append, List.find?_append, hA.find_semicolon, ih]
    cases A.find? Atom.isSemicolon <;> rfl

/-! ## Groups by themselves -/

namespace Scanned

variable {text : List Char} {as : List Atom}

/-- What stands in a group has, scanned by itself, the atoms of the group, counted from behind its
bracket. -/
theorem scan_group (h : Scanned text as) {b : Bracket} {pos stop : Nat} {inner : String}
    {children : List Atom} (hm : .group b pos stop inner children ∈ as) :
    ∃ atoms, scan inner.toList 0 = .ok atoms ∧ atoms.map (Atom.shift (pos + 1)) = children := by
  obtain ⟨p, q, rfl, hq⟩ := h.passes
  obtain ⟨-, inside, -, atoms, -, -, -, rfl, hscan, hchildren⟩ :=
    (hq.group_of_occurs (.here hm)).scan_inside
  exact ⟨atoms, by rwa [String.toList_ofList], hchildren⟩

/-- A punctuation atom is one character long. -/
theorem stop_of_punct (h : Scanned text as) {value : String} {pos stop : Nat}
    (hm : .leaf .punct value pos stop ∈ as) : stop = pos + 1 := by
  have hs : LeafShows .punct value (Text.slice text pos stop) (text.drop stop) := h.shows _ hm
  obtain ⟨lo, hi, hhi, hp⟩ := h.partition
  have hb : lo ≤ pos ∧ pos < stop ∧ stop ≤ hi := hp.bounds _ hm
  have hlen := hs.2
  rw [Text.length_slice (by omega)] at hlen
  omega

end Scanned

/-! ## The split -/

/-- The semicolon at which a group is split is found among its tokens in the whole text; taken from
behind the opening bracket, its offset is the one that it has in the text of the group. -/
theorem splitSpec_cuts {inner : String} {atoms : List Atom} (hscan : scan inner.toList 0 = .ok atoms)
    {t : Token} (hinner : t.inner = inner)
    (hchildren : t.children = classify (atoms.map (Atom.shift (t.pos + 1)))) :
    ∃ part spec, Cuts inner.toList atoms part spec
      ∧ Cursor.splitSpec t = (Text.trim part, spec.map Text.trim) := by
  have hfind : t.children.find? (·.has .punct ";")
      = (atoms.find? Atom.isSemicolon).map fun a => .flat .punct ";"
          (a.shift (t.pos + 1)).pos (a.shift (t.pos + 1)).stop := by
    have hcomp : Atom.isSemicolon ∘ Atom.shift (t.pos + 1) = Atom.isSemicolon :=
      funext fun a => a.isSemicolon_shift (t.pos + 1)
    rw [hchildren, (munched_classify _).find_semicolon, List.find?_map, Option.map_map, hcomp]
    rfl
  unfold Cursor.splitSpec
  rw [hfind, hinner]
  cases hsemi : atoms.find? Atom.isSemicolon with
  | none =>
    refine ⟨inner.toList, none, .uncut fun a ha => ?_, rfl⟩
    rw [← Bool.not_eq_true]
    exact List.find?_eq_none.mp hsemi a ha
  | some a =>
    obtain ⟨ha, before, after, rfl, hbefore⟩ := List.find?_eq_some_iff_append.mp hsemi
    obtain ⟨k, rfl⟩ : ∃ k, a = .leaf .punct ";" k (k + 1) := by
      have hmem : Atom.leaf .punct ";" a.pos a.stop ∈ before ++ a :: after := by
        rw [← Atom.eq_of_isSemicolon ha]
        simp
      refine ⟨a.pos, ?_⟩
      rw [← (Scanned.whole hscan).stop_of_punct hmem]
      exact Atom.eq_of_isSemicolon ha
    refine ⟨inner.toList.take k, some (inner.toList.drop (k + 1)),
      .cut rfl fun x hx => by simpa using hbefore x hx, ?_⟩
    show (Text.trim (inner.toList.take (k + (t.pos + 1) - (t.pos + 1))),
      some (Text.trim (inner.toList.drop (k + 1 + (t.pos + 1) - (t.pos + 1))))) = _
    rw [Nat.add_sub_cancel, Nat.add_sub_cancel]
    rfl

/-- A brace group, at any depth, is split at the first top-level semicolon of its own text, and is
refused at its brace exactly if nothing but blanks stands before that. -/
theorem expression_cuts {text : List Char} {as : List Atom} (h : Scanned text as) {pos stop : Nat}
    {inner : String} {children : List Atom} (hm : .group .curly pos stop inner children ∈ as) :
    ∃ t atoms part spec, classify [.group .curly pos stop inner children] = [t] ∧ t ∈ classify as
      ∧ scan inner.toList 0 = .ok atoms ∧ Cuts inner.toList atoms part spec
      ∧ (Text.isAllBlank part = true → ∀ c : Cursor,
          Cursor.expression t c = .error ⟨.emptyExpression, pos⟩ c)
      ∧ (Text.isAllBlank part = false → ∀ c : Cursor, Cursor.expression t c
          = .ok (String.ofList (Text.trim part),
              spec.map fun s => String.ofList (Text.trim s)) c) := by
  obtain ⟨atoms, hscan, rfl⟩ := h.scan_group hm
  obtain ⟨t, ht⟩ : ∃ t : Token, t = .mk .brace Bracket.curly.opener.toString pos stop inner
      (classify (atoms.map (Atom.shift (pos + 1)))) := ⟨_, rfl⟩
  have hvalue : t.value = Bracket.curly.opener.toString := by rw [ht]; rfl
  have hpos : t.pos = pos := by rw [ht]; rfl
  obtain ⟨part, spec, hcuts, hsplit⟩ :=
    splitSpec_cuts (t := t) hscan (by rw [ht]; rfl) (by rw [ht]; rfl)
  have hclassify : classify [.group .curly pos stop inner (atoms.map (Atom.shift (pos + 1)))]
      = [t] := by
    rw [classify_group, classify, ht]
    rfl
  refine ⟨t, atoms, part, spec, hclassify, ?_, hscan, hcuts, fun hblank c => ?_, fun hblank c => ?_⟩
  · obtain ⟨u, hu, rest, hmunch⟩ := (munched_classify as).exists_munch hm rfl
    cases hmunch with
    | group => rwa [ht]
    | marker _ hs =>
      obtain ⟨c, -, pos, stop, he⟩ := hs.mem List.mem_cons_self
      cases he
  · rw [Cursor.expression, Cursor.splitExpression, if_neg (not_not_intro hvalue), hsplit, hpos]
    dsimp only
    rw [if_pos (Text.trim_eq_nil_iff.mpr hblank)]
    rfl
  · have hne : Text.trim part ≠ [] := by
      rw [ne_eq, Text.trim_eq_nil_iff, hblank]
      decide
    rw [Cursor.expression, Cursor.splitExpression, if_neg (not_not_intro hvalue), hsplit]
    dsimp only
    rw [if_neg hne, Option.map_map]
    rfl

/-- A group in a group: it is not split at the semicolon in brackets, and the one that follows the
first stays in the format spec. -/
theorem expression_cuts_nested : ∃ children,
    Scanned "(\x7b[a;b];c;d\x7d)".toList [.group .curly 1 12 "[a;b];c;d" children]
      ∧ ∃ t atoms part spec, classify [.group .curly 1 12 "[a;b];c;d" children] = [t]
        ∧ t ∈ classify [.group .curly 1 12 "[a;b];c;d" children]
        ∧ scan "[a;b];c;d".toList 0 = .ok atoms ∧ Cuts "[a;b];c;d".toList atoms part spec
        ∧ (Text.isAllBlank part = true → ∀ c : Cursor,
            Cursor.expression t c = .error ⟨.emptyExpression, 1⟩ c)
        ∧ (Text.isAllBlank part = false → ∀ c : Cursor, Cursor.expression t c
            = .ok (String.ofList (Text.trim part),
                spec.map fun s => String.ofList (Text.trim s)) c) := by
  have hscan : scan "(\x7b[a;b];c;d\x7d)".toList 0
      = .ok [.group .round 0 13 "\x7b[a;b];c;d\x7d" [.group .curly 1 12 "[a;b];c;d"
          [.group .square 2 7 "a;b" [.leaf .ident "a" 3 4, .leaf .punct ";" 4 5,
            .leaf .ident "b" 5 6], .leaf .punct ";" 7 8, .leaf .ident "c" 8 9,
          .leaf .punct ";" 9 10, .leaf .ident "d" 10 11]]] := by cbv
  have h := (Scanned.whole hscan).inside List.mem_cons_self
  exact ⟨_, h, expression_cuts h List.mem_cons_self⟩

/-- Its source and its format spec. -/
example : Cursor.splitSpec (.mk .brace "\x7b" 1 12 "[a;b];c;d" [.mk .bracket "[" 2 7 "a;b" [],
    .flat .punct ";" 7 8, .flat .ident "c" 8 9, .flat .punct ";" 9 10, .flat .ident "d" 10 11])
    = ("[a;b]".toList, some "c;d".toList) := by cbv

end MarkupTemplate
