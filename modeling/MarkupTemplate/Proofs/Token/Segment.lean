import MarkupTemplate.Proofs.Token.Move

/-!
# Tokens and the atoms they are made of

A token is made of one atom or, if it is a marker, of touching punctuation. Tokens next to each
other are made of atoms next to each other.

* `Makes`: the atoms of one token.
* `classify_eq_append`: a run of tokens has its own atoms.
* `Makes.of_punct`, `Makes.of_marker`, `Makes.of_keyword`, `Makes.of_group`: the atoms of a token
  of one kind.
-/
namespace MarkupTemplate

/-! ## Markers -/

theorem spelled?_take (from? : Option Nat) (spelling : List Char) (as : List Atom) :
    spelled? from? spelling (as.take spelling.length) = spelled? from? spelling as := by
  fun_induction spelled? from? spelling as with
  | case1 => simp [spelled?]
  | case2 from? c spelling value pos stop as hc ih =>
    rw [List.length_cons, List.take_succ_cons, spelled?, if_pos hc, ih]
  | case3 from? c spelling value pos stop as hc =>
    rw [List.length_cons, List.take_succ_cons, spelled?, if_neg hc]
  | case4 from? c spelling as hno =>
    cases as with
    | nil => simp [spelled?]
    | cons a as =>
      rw [List.length_cons, List.take_succ_cons]
      cases a with
      | group => rfl
      | leaf kind value pos stop =>
        cases kind with
        | punct => exact absurd rfl (hno value pos stop as)
        | ident => rfl
        | string => rfl
        | number => rfl

/-- What some atoms spell, they spell whatever atoms follow. -/
theorem spelled?_append_of_some {from? : Option Nat} {spelling : List Char} {as bs : List Atom}
    {stop : Nat} (h : spelled? from? spelling as = some stop) :
    spelled? from? spelling (as ++ bs) = some stop := by
  rw [← spelled?_take, List.take_append_of_le_length (length_le_of_spelled? h), spelled?_take, h]

/-- A marker that some of the atoms spell is found in them without the others. -/
theorem marker?_of_append {as bs : List Atom} {m : List Char × TokenKind × Nat}
    (h : marker? (as ++ bs) = some m) (hlen : m.1.length ≤ as.length) : marker? as = some m := by
  unfold marker? at h ⊢
  rw [List.findSome?_eq_some_iff] at h ⊢
  obtain ⟨before, k, after, hsplit, hk, hnone⟩ := h
  refine ⟨before, k, after, hsplit, ?_, fun x hx => ?_⟩
  · obtain ⟨stop, hstop, rfl⟩ := Option.map_eq_some_iff.mp hk
    rw [← spelled?_take, List.take_append_of_le_length hlen, spelled?_take] at hstop
    rw [hstop, Option.map_some]
  · -- a marker that is tried earlier would be spelled by all the atoms as well
    have := hnone x hx
    cases hs : spelled? none x.1 as with
    | none => rfl
    | some stop => rw [spelled?_append_of_some hs] at this; cases this

theorem marker?_none_of_append {as bs : List Atom} (h : marker? (as ++ bs) = none) :
    marker? as = none := by
  unfold marker? at h ⊢
  rw [List.findSome?_eq_none_iff] at h ⊢
  intro x hx
  have := h x hx
  cases hs : spelled? none x.1 as with
  | none => rfl
  | some stop => rw [spelled?_append_of_some hs] at this; cases this

/-! ## The atoms of a token -/

/-- The atoms that one token is made of. -/
inductive Makes : List Atom → Token → Prop where
  | leaf {kind : LeafKind} {value : String} {pos stop : Nat} :
      Makes [.leaf kind value pos stop] (.flat (leafTokenKind kind value) value pos stop)
  | marker {m : List Char × TokenKind} {value : String} {pos mid stop : Nat} {as : List Atom}
      (hm : m ∈ markers) (hl : as.length + 1 = m.1.length)
      (hs : spelled? none m.1 (.leaf .punct value pos mid :: as) = some stop) :
      Makes (.leaf .punct value pos mid :: as) (.flat m.2 (String.ofList m.1) pos stop)
  | group {b : Bracket} {pos stop : Nat} {inner : String} {children : List Atom} :
      Makes [.group b pos stop inner children]
        (.mk (groupTokenKind b) b.opener.toString pos stop inner (classify children))

theorem ne_nil_of_mem_markers : ∀ m ∈ markers, 0 < m.1.length := by decide

/-- A marker takes its first atom and as many others as it has further characters. -/
theorem split_of_marker? {a : Atom} {as : List Atom} {m : List Char × TokenKind × Nat}
    (h : marker? (a :: as) = some m) : ∃ A C, as = A ++ C ∧ A.length + 1 = m.1.length := by
  obtain ⟨hmem, hspell⟩ := mem_of_marker? h
  have hlen := length_le_of_spelled? hspell
  have hpos : 0 < m.1.length := ne_nil_of_mem_markers _ hmem
  rw [List.length_cons] at hlen
  refine ⟨as.take (m.1.length - 1), as.drop (m.1.length - 1), by simp, ?_⟩
  rw [List.length_take]
  omega

/-- A marker is found whatever part of the atoms behind it follows. -/
theorem classify_marker_append {value : String} {pos stop : Nat} {A D E : List Atom}
    {m : List Char × TokenKind × Nat}
    (h : marker? (.leaf .punct value pos stop :: (A ++ (D ++ E))) = some m)
    (hA : A.length + 1 = m.1.length) : classify (.leaf .punct value pos stop :: (A ++ D))
      = .flat m.2.1 (String.ofList m.1) pos m.2.2 :: classify D := by
  have hcut : marker? (.leaf .punct value pos stop :: (A ++ D)) = some m := by
    rw [← List.append_assoc, ← List.cons_append] at h
    refine marker?_of_append h ?_
    simp only [List.length_cons, List.length_append]
    omega
  rw [classify_marker hcut, ← hA, Nat.add_sub_cancel, List.drop_left]

/-- The first token takes its atoms, whatever part of the others follows. -/
theorem classify_eq_cons {as : List Atom} {t : Token} {ts : List Token}
    (h : classify as = t :: ts) : ∃ A C, as = A ++ C ∧ Makes A t
      ∧ ∀ D E, C = D ++ E → classify (A ++ D) = t :: classify D := by
  fun_cases classify as with
  | case1 => rw [classify] at h; cases h
  | case2 b pos stop inner children as =>
    rw [classify_group] at h
    obtain ⟨rfl, -⟩ := List.cons.inj h
    exact ⟨[_], as, rfl, .group, fun D E _ => classify_group⟩
  | case3 value pos stop as spelling kind stop' hm =>
    rw [classify_marker hm] at h
    obtain ⟨rfl, -⟩ := List.cons.inj h
    obtain ⟨hmem, hspell⟩ := mem_of_marker? hm
    obtain ⟨A, C, rfl, hA⟩ := split_of_marker? hm
    dsimp only at hmem hspell hA
    rw [← spelled?_take, ← hA, List.take_succ_cons, List.take_left] at hspell
    refine ⟨.leaf .punct value pos stop :: A, C, rfl, .marker hmem hA hspell, ?_⟩
    rintro D E rfl
    exact classify_marker_append hm hA
  | case4 value pos stop as hm =>
    rw [classify_punct hm] at h
    obtain ⟨rfl, -⟩ := List.cons.inj h
    refine ⟨[_], as, rfl, (.leaf : Makes [.leaf .punct value pos stop] _), ?_⟩
    rintro D E rfl
    rw [← List.cons_append] at hm
    exact classify_punct (marker?_none_of_append hm)
  | case5 kind value pos stop as hk =>
    rw [classify_leaf hk] at h
    obtain ⟨rfl, -⟩ := List.cons.inj h
    exact ⟨[_], as, rfl, .leaf, fun D E _ => classify_leaf hk⟩

/-- Tokens next to each other are made of atoms next to each other. -/
theorem classify_eq_append {as : List Atom} {xs ys : List Token} (h : classify as = xs ++ ys) :
    ∃ A B, as = A ++ B ∧ classify A = xs ∧ classify B = ys := by
  induction xs generalizing as with
  | nil => exact ⟨[], as, rfl, by rw [classify], h⟩
  | cons t xs ih =>
    obtain ⟨A, C, rfl, -, hstep⟩ := classify_eq_cons h
    rw [hstep C [] (List.append_nil C).symm] at h
    obtain ⟨D, E, rfl, hD, hE⟩ := ih (List.cons.inj h).2
    exact ⟨A ++ D, E, (List.append_assoc ..).symm, by rw [hstep D E rfl, hD], hE⟩

theorem makes_of_classify {as : List Atom} {t : Token} (h : classify as = [t]) : Makes as t := by
  obtain ⟨A, C, rfl, hA, hstep⟩ := classify_eq_cons h
  rw [hstep C [] (List.append_nil C).symm] at h
  have hC : C = [] := Classical.byContradiction fun hne =>
    classify_ne_nil hne (List.cons.inj h).2
  rwa [hC, List.append_nil]

/-- Some atoms and the token they make start and end in the same places. -/
def Spans (as : List Atom) (t : Token) : Prop :=
  (∃ a, as.head? = some a ∧ a.pos = t.pos) ∧ ∃ z, as.getLast? = some z ∧ z.stop = t.stop

/-- The last of the atoms that spell a marker is a character of it. -/
theorem last_of_spelled? {from? : Option Nat} {spelling : List Char} {as : List Atom} {stop : Nat}
    (h : spelled? from? spelling as = some stop) (hlen : as.length = spelling.length)
    (hne : as ≠ []) :
    ∃ c pos, c ∈ spelling ∧ as.getLast? = some (.leaf .punct c.toString pos stop) := by
  fun_induction spelled? from? spelling as with
  | case1 => exact absurd (List.length_eq_zero_iff.mp hlen) hne
  | case2 from? c spelling value pos stop' as hc ih =>
    cases as with
    | nil =>
      obtain rfl := List.length_eq_zero_iff.mp (Nat.succ.inj hlen).symm
      obtain rfl : stop' = stop := Option.some.inj h
      exact ⟨c, pos, List.mem_cons_self, by rw [← hc.1]; rfl⟩
    | cons a as =>
      rw [List.getLast?_cons_cons]
      obtain ⟨d, pos, hd, hlast⟩ := ih h (Nat.succ.inj hlen) (List.cons_ne_nil a as)
      exact ⟨d, pos, List.mem_cons_of_mem c hd, hlast⟩
  | case3 => cases h
  | case4 => cases h

theorem Makes.spans {as : List Atom} {t : Token} (h : Makes as t) : Spans as t := by
  cases h with
  | leaf => exact ⟨⟨_, rfl, rfl⟩, _, rfl, rfl⟩
  | marker hm hl hs =>
    obtain ⟨c, pos, -, hlast⟩ := last_of_spelled? hs hl (List.cons_ne_nil _ _)
    exact ⟨⟨_, rfl, rfl⟩, _, hlast, rfl⟩
  | group => exact ⟨⟨_, rfl, rfl⟩, _, rfl, rfl⟩

/-- Every token is made of some of the atoms. -/
theorem makes_of_mem {as : List Atom} {t : Token} (h : t ∈ classify as) :
    ∃ B A C, as = B ++ (A ++ C) ∧ Makes A t := by
  obtain ⟨xs, ys, hts⟩ := List.append_of_mem h
  obtain ⟨B, D, rfl, -, hD⟩ := classify_eq_append hts
  obtain ⟨A, C, rfl, hA, -⟩ := classify_eq_cons hD
  exact ⟨B, A, C, rfl, hA⟩

/-- The first atom starts where the first token starts. -/
theorem head_of_classify {as : List Atom} {t : Token} (h : (classify as).head? = some t) :
    ∃ a, as.head? = some a ∧ a.pos = t.pos := by
  obtain ⟨ts, hts⟩ := List.head?_eq_some_iff.mp h
  obtain ⟨A, C, rfl, hA, -⟩ := classify_eq_cons hts
  obtain ⟨⟨a, ha, hpos⟩, -⟩ := hA.spans
  exact ⟨a, by rw [List.head?_append, ha]; rfl, hpos⟩

/-- The last token is made of the last atoms. -/
theorem last_of_classify {as : List Atom} {t : Token} (h : (classify as).getLast? = some t) :
    ∃ A B, as = A ++ B ∧ Makes B t := by
  obtain ⟨ts, hts⟩ := List.getLast?_eq_some_iff.mp h
  obtain ⟨A, B, rfl, -, hB⟩ := classify_eq_append hts
  exact ⟨A, B, rfl, makes_of_classify hB⟩

/-- The first and the last atom of some tokens. -/
theorem ends_of_classify {as : List Atom} (hne : classify as ≠ []) :
    ∃ t u a z, (classify as).head? = some t ∧ (classify as).getLast? = some u
      ∧ as.head? = some a ∧ as.getLast? = some z ∧ a.pos = t.pos ∧ z.stop = u.stop := by
  obtain ⟨t, ht⟩ : ∃ t, (classify as).head? = some t := ⟨_, List.head?_eq_some_head hne⟩
  obtain ⟨u, hu⟩ : ∃ u, (classify as).getLast? = some u := ⟨_, List.getLast?_eq_some_getLast hne⟩
  obtain ⟨a, ha, hpos⟩ := head_of_classify ht
  obtain ⟨A, B, rfl, hm⟩ := last_of_classify hu
  obtain ⟨-, z, hz, hstop⟩ := hm.spans
  exact ⟨t, u, a, z, ht, hu, ha, by rw [List.getLast?_append, hz]; rfl, hpos, hstop⟩

/-! ## Tokens of a kind -/

theorem Token.kind_of_has {kind : TokenKind} {value : String} {t : Token}
    (h : t.has kind value = true) : t.kind = kind ∧ t.value = value := by
  simpa [has] using h

theorem Token.isGroup_of_kind {b : Bracket} {t : Token} (h : t.kind = groupTokenKind b) :
    t.isGroup = true := by
  unfold isGroup
  rw [h]
  cases b <;> rfl

theorem ident_of_leafTokenKind {kind : LeafKind} {value : String}
    (h : leafTokenKind kind value = .keyword) : kind = .ident ∧ keywords.contains value = true := by
  cases kind with
  | ident =>
    rw [leafTokenKind] at h
    split at h
    · next hk => exact ⟨rfl, hk⟩
    · cases h
  | string => cases h
  | number => cases h
  | punct => cases h

theorem punct_of_leafTokenKind {kind : LeafKind} {value : String}
    (h : leafTokenKind kind value = .punct) : kind = .punct := by
  cases kind with
  | ident =>
    rw [leafTokenKind] at h
    split at h <;> cases h
  | string => cases h
  | number => cases h
  | punct => rfl

theorem not_punct_of_mem_markers : ∀ m ∈ markers, m.2 ≠ .punct := by decide

theorem Makes.of_punct {as : List Atom} {t : Token} (h : Makes as t) (hk : t.kind = .punct) :
    as = [.leaf .punct t.value t.pos t.stop] := by
  cases h with
  | leaf => rw [punct_of_leafTokenKind hk]; rfl
  | marker hm => exact absurd hk (not_punct_of_mem_markers _ hm)
  | @group b => cases b <;> cases hk

theorem leafTokenKind_ne {kind : LeafKind} {value : String} {m : List Char × TokenKind}
    (hm : m ∈ markers) : leafTokenKind kind value ≠ m.2 := by
  have hall : ∀ m ∈ markers, .ident ≠ m.2 ∧ .keyword ≠ m.2 ∧ .string ≠ m.2 ∧ .number ≠ m.2
      ∧ .punct ≠ m.2 := by decide
  obtain ⟨hident, hkeyword, hstring, hnumber, hpunct⟩ := hall m hm
  cases kind with
  | ident =>
    rw [leafTokenKind]
    split
    · exact hkeyword
    · exact hident
  | string => exact hstring
  | number => exact hnumber
  | punct => exact hpunct

/-- Each marker has a kind of its own. -/
theorem eq_of_mem_markers : ∀ m ∈ markers, ∀ m' ∈ markers, m'.2 = m.2 → m' = m := by decide

/-- The atoms of a token that is a marker spell it, one character each. -/
theorem Makes.of_marker {as : List Atom} {t : Token} {m : List Char × TokenKind} (h : Makes as t)
    (hm : m ∈ markers) (hk : t.kind = m.2) :
    as.length = m.1.length ∧ spelled? none m.1 as = some t.stop := by
  cases h with
  | leaf => exact absurd hk (leafTokenKind_ne hm)
  | marker hm' hlen hs =>
    obtain rfl := eq_of_mem_markers _ hm _ hm' hk
    exact ⟨hlen, hs⟩
  | group => exact absurd hk.symm (TokenKind.ne_group_of_isFlat (isFlat_of_mem_markers _ hm) _)

theorem Makes.of_keyword {as : List Atom} {t : Token} (h : Makes as t) (hk : t.kind = .keyword) :
    as = [.leaf .ident t.value t.pos t.stop] ∧ keywords.contains t.value = true := by
  cases h with
  | leaf =>
    obtain ⟨rfl, hv⟩ := ident_of_leafTokenKind hk
    exact ⟨rfl, hv⟩
  | marker hm => exact absurd hk (markers_kind _ hm).2.1
  | @group b => cases b <;> cases hk

theorem isGroup_flat {kind : TokenKind} {value : String} {pos stop : Nat}
    (h : kind.isFlat = true) : (Token.flat kind value pos stop).isGroup = false := by
  cases kind <;> first | rfl | exact absurd h (by decide)

theorem Makes.of_group {as : List Atom} {t : Token} (h : Makes as t) (ht : t.isGroup = true) :
    ∃ b inner children, as = [.group b t.pos t.stop inner children]
      ∧ t = .mk (groupTokenKind b) b.opener.toString t.pos t.stop inner (classify children) := by
  cases h with
  | leaf => rw [isGroup_flat (isFlat_leafTokenKind _ _)] at ht; cases ht
  | marker hm => rw [isGroup_flat (isFlat_of_mem_markers _ hm)] at ht; cases ht
  | group => exact ⟨_, _, _, rfl, rfl⟩

end MarkupTemplate
