import MarkupTemplate.Proofs.Token.Segment

/-!
# Markers across a seam

The tokens of two lists of atoms are the tokens of each, unless a marker is spelled by the last
atoms of the first list and the first of the second.

* `Crosses`: such a marker; `classify_append_or`: there is one, or the tokens are those of each.
* `classify_declaration`, `classify_instruction`: the signs before a payload.
* `classify_gt_iff`, `classify_instructionEnd_iff`: the signs behind a payload, and with which last
  tokens they are other markers.
-/
namespace MarkupTemplate

variable {as bs : List Atom} {ts : List Token} {t u : Token} {pos mid stop : Nat}

/-! ## Spelling -/

theorem spelled?_cons_iff {from? : Option Nat} {c : Char} {spelling : List Char} :
    spelled? from? (c :: spelling) as = some stop ↔ ∃ pos mid rest,
      as = .leaf .punct c.toString pos mid :: rest ∧ (from? = none ∨ from? = some pos)
        ∧ spelled? (some mid) spelling rest = some stop := by
  constructor
  · intro h
    match as with
    | [] => cases h
    | .group _ _ _ _ _ :: _ => cases h
    | .leaf .ident _ _ _ :: _ => cases h
    | .leaf .string _ _ _ :: _ => cases h
    | .leaf .number _ _ _ :: _ => cases h
    | .leaf .punct value pos mid :: rest =>
      rw [spelled?] at h
      split at h
      · next hc =>
        obtain ⟨rfl, hfrom⟩ := hc
        exact ⟨pos, mid, rest, rfl, hfrom, h⟩
      · cases h
  · rintro ⟨pos, mid, rest, rfl, hfrom, h⟩
    rw [spelled?, if_pos ⟨rfl, hfrom⟩, h]

/-- What some atoms and others behind them spell is spelled by each. -/
theorem spelled?_append_append {from? : Option Nat} {u v : List Char} (hlen : as.length = u.length)
    (hne : u ≠ []) (h : spelled? from? (u ++ v) (as ++ bs) = some stop) :
    ∃ mid, spelled? from? u as = some mid ∧ spelled? (some mid) v bs = some stop := by
  induction u generalizing as from? with
  | nil => exact absurd rfl hne
  | cons c u ih =>
    obtain ⟨a, as, rfl⟩ := List.exists_cons_of_length_eq_add_one hlen
    rw [List.cons_append, List.cons_append] at h
    obtain ⟨pos, mid, rest, he, hfrom, h⟩ := spelled?_cons_iff.mp h
    obtain ⟨rfl, rfl⟩ := List.cons.inj he
    simp only [spelled?_cons_iff]
    cases u with
    | nil =>
      obtain rfl := List.length_eq_zero_iff.mp (Nat.succ.inj hlen)
      exact ⟨mid, ⟨pos, mid, [], rfl, hfrom, rfl⟩, h⟩
    | cons d u =>
      obtain ⟨mid', hu, hv⟩ := ih (Nat.succ.inj hlen) (List.cons_ne_nil d u) h
      exact ⟨mid', ⟨pos, mid, as, rfl, hfrom, hu⟩, hv⟩

/-- The one atom that spells a character. -/
theorem eq_of_spelled?_singleton {c : Char} (h : spelled? none [c] as = some stop)
    (hlen : as.length = 1) : ∃ pos, as = [.leaf .punct c.toString pos stop] := by
  obtain ⟨pos, mid, rest, rfl, -, h⟩ := spelled?_cons_iff.mp h
  obtain rfl := List.length_eq_zero_iff.mp (Nat.succ.inj hlen)
  obtain rfl : mid = stop := Option.some.inj h
  exact ⟨pos, rfl⟩

/-! ## Crossing markers -/

/-- A marker is spelled by the last of some atoms, which are tokens of their own, and the first of
the atoms behind them. -/
inductive Crosses : List Atom → List Atom → Prop where
  | mk {A B bs : List Atom} {u v : List Char} {c : Char} {kind : TokenKind} {mid stop : Nat}
      (hm : (u ++ c :: v, kind) ∈ markers) (hsplit : classify (A ++ B) = classify A ++ classify B)
      (hlen : B.length = u.length) (hB : spelled? none u B = some mid)
      (hbs : spelled? (some mid) (c :: v) bs = some stop) : Crosses (A ++ B) bs

/-- The first marker of some atoms is the same with others behind them, unless it crosses. -/
theorem marker?_append_or (bs : List Atom) (hne : as ≠ []) :
    marker? (as ++ bs) = marker? as ∨ Crosses as bs := by
  cases h : marker? (as ++ bs) with
  | none => exact .inl (marker?_none_of_append h).symm
  | some m =>
    by_cases hlen : m.1.length ≤ as.length
    · exact .inl (marker?_of_append h hlen).symm
    · obtain ⟨hm, hs⟩ := mem_of_marker? h
      obtain ⟨spelling, kind, stop⟩ := m
      obtain ⟨u, v, rfl, hu⟩ : ∃ u v, spelling = u ++ v ∧ as.length = u.length :=
        ⟨spelling.take as.length, spelling.drop as.length, (List.take_append_drop ..).symm, by
          rw [List.length_take]
          dsimp only at hlen
          omega⟩
      cases v with
      | nil =>
        rw [List.append_nil, hu] at hlen
        exact absurd (Nat.le_refl _) hlen
      | cons c v =>
        have hune : u ≠ [] := by
          rintro rfl
          exact hne (List.length_eq_zero_iff.mp hu)
        obtain ⟨mid, has, hbs⟩ := spelled?_append_append hu hune hs
        exact .inr (.mk (A := []) hm (by rw [classify]; rfl) hu has hbs)

/-- In front of a marker that crosses there may stand a token. -/
theorem Crosses.cons {A : List Atom} (t : Token) (h : Crosses as bs)
    (ht : ∀ B C, as = B ++ C → classify (A ++ B) = t :: classify B) : Crosses (A ++ as) bs := by
  cases h with
  | @mk B C _ _ _ _ _ _ _ hm hsplit hlen hB hbs =>
    rw [← List.append_assoc]
    refine .mk hm ?_ hlen hB hbs
    rw [List.append_assoc, ht (B ++ C) [] (List.append_nil _).symm, hsplit, ht B C rfl]
    rfl

/-- The tokens of two lists of atoms are the tokens of each, unless a marker crosses. -/
theorem classify_append_or (as bs : List Atom) :
    classify (as ++ bs) = classify as ++ classify bs ∨ Crosses as bs := by
  fun_induction classify as with
  | case1 => exact .inl rfl
  | case2 b pos stop inner children atoms _ ih =>
    rcases ih with ih | ih
    · rw [List.cons_append, classify_group, ih]
      exact .inl rfl
    · exact .inr (ih.cons _ (A := [_]) fun B C _ => classify_group)
  | case3 value pos stop atoms spelling kind markerStop hm ih =>
    rcases marker?_append_or bs (List.cons_ne_nil (.leaf .punct value pos stop) atoms)
      with hm' | hc
    · obtain ⟨A, C, rfl, hA⟩ := split_of_marker? hm
      dsimp only at hA
      rw [← hA, Nat.add_sub_cancel, List.drop_left] at ih ⊢
      rcases ih with ih | ih
      · have hmarker := hm'.trans hm
        rw [List.cons_append, List.append_assoc, ← List.append_nil (C ++ bs)] at hmarker
        rw [List.cons_append, List.append_assoc, classify_marker_append hmarker hA, ih]
        exact .inl rfl
      · refine .inr (ih.cons (.flat kind (String.ofList spelling) pos markerStop)
          (A := .leaf .punct value pos stop :: A) ?_)
        rintro B D rfl
        exact classify_marker_append hm hA
    · exact .inr hc
  | case4 value pos stop atoms hm ih =>
    rcases marker?_append_or bs (List.cons_ne_nil (.leaf .punct value pos stop) atoms)
      with hm' | hc
    · rcases ih with ih | ih
      · have hpunct := hm'.trans hm
        rw [List.cons_append] at hpunct ⊢
        rw [classify_punct hpunct, ih]
        exact .inl rfl
      · refine .inr (ih.cons (.flat .punct value pos stop) (A := [_]) ?_)
        rintro B C rfl
        rw [← List.cons_append] at hm
        exact classify_punct (marker?_none_of_append hm)
    · exact .inr hc
  | case5 kind value pos stop atoms hk ih =>
    rcases ih with ih | ih
    · rw [List.cons_append, classify_leaf hk, ih]
      exact .inl rfl
    · exact .inr (ih.cons _ (A := [_]) fun B C _ => classify_leaf hk)

/-! ## Signs before a payload -/

/-- Before anything but two touching dashes, `<!` is a declaration. -/
theorem classify_declaration {a b c : Nat} (h : spelled? (some c) ['-', '-'] bs = none) :
    classify (.leaf .punct "<" a b :: .leaf .punct "!" b c :: bs)
      = .flat .declaration "<!" a c :: classify bs := by
  rw [classify_marker (m := ("<!".toList, .declaration, c))
    (by simp [marker?, markers, spelled?, h])]
  rfl

/-- Before two touching dashes, `<!` opens a comment. -/
theorem classify_commentOpen {a b c d : Nat} (h : spelled? (some c) ['-', '-'] bs = some d) :
    classify (.leaf .punct "<" a b :: .leaf .punct "!" b c :: bs)
      = .flat .commentOpen "<!--" a d :: classify (bs.drop 2) := by
  rw [classify_marker (m := ("<!--".toList, .commentOpen, d))
    (by simp [marker?, markers, spelled?, h])]
  rfl

/-- `<?` is an instruction before anything. -/
theorem classify_instruction {a b c : Nat} : classify (.leaf .punct "<" a b
    :: .leaf .punct "?" b c :: bs) = .flat .instruction "<?" a c :: classify bs := by
  rw [classify_marker (m := ("<?".toList, .instruction, c))
    (by simp [marker?, markers, spelled?])]
  rfl

/-! ## Signs behind a payload -/

/-- Where the last token is a marker that has as many characters as there are last atoms, these are
its atoms. -/
theorem classify_eq_append_marker {xs ys : List Token} {m : List Char × TokenKind}
    (h : classify (as ++ bs) = xs ++ (ys ++ [u])) (hm : m ∈ markers) (hk : u.kind = m.2)
    (hlen : bs.length = m.1.length) : ∃ A B, as = A ++ B ∧ classify A = xs ∧ classify B = ys
      ∧ classify (B ++ bs) = ys ++ [u] ∧ classify bs = [u] := by
  obtain ⟨A, D, hAD, hA, hD⟩ := classify_eq_append h
  obtain ⟨B, C, rfl, hB, hC⟩ := classify_eq_append hD
  have hlenC := ((makes_of_classify hC).of_marker hm hk).1
  rw [← List.append_assoc] at hAD
  obtain ⟨rfl, rfl⟩ := List.append_inj' hAD (hlen.trans hlenC.symm)
  exact ⟨A, B, rfl, hA, hB, hD, hC⟩

/-- The last of some tokens end at `pos` and are, with a `>` behind them, another marker. -/
inductive GoesOn (pos : Nat) : List Token → Prop where
  | sign {ts : List Token} {t : Token}
      (ht : t.has .punct "=" = true ∨ t.has .punct "/" = true ∨ t.has .punct "?" = true)
      (hpos : t.stop = pos) : GoesOn pos (ts ++ [t])
  | dashes {ts : List Token} {t u : Token} (ht : t.has .punct "-" = true)
      (hu : u.has .punct "-" = true) (htouch : t.stop = u.pos) (hpos : u.stop = pos) :
      GoesOn pos (ts ++ [t, u])

theorem GoesOn.last (h : GoesOn pos ts) : ∃ t ∈ ts.getLast?, t.kind = .punct := by
  cases h with
  | sign ht hpos =>
    refine ⟨_, List.getLast?_concat, ?_⟩
    rcases ht with ht | ht | ht
    · exact (Token.kind_of_has ht).1
    · exact (Token.kind_of_has ht).1
    · exact (Token.kind_of_has ht).1
  | dashes ht hu _ _ => exact ⟨_, by simp, (Token.kind_of_has hu).1⟩

/-- A punctuation character that is no marker by itself. -/
theorem classify_singleton {value : String} (h : marker? [.leaf .punct value pos stop] = none) :
    classify [.leaf .punct value pos stop] = [.flat .punct value pos stop] := by
  rw [classify_punct h, classify]

theorem mem_markers_gt : ([ '>' ], TokenKind.gt) ∈ markers := by decide

/-- The atom of a punctuation token of a known value. -/
theorem eq_of_classify_punct {value : String} (h : classify as = [t])
    (ht : t.has .punct value = true) : as = [.leaf .punct value t.pos t.stop] := by
  obtain ⟨hk, rfl⟩ := Token.kind_of_has ht
  exact (makes_of_classify h).of_punct hk

/-- The marker that crosses to a `>` is one with which the last tokens go on. -/
theorem Crosses.goesOn (h : Crosses as [.leaf .punct ">" pos stop]) :
    GoesOn pos (classify as) := by
  cases h with
  | @mk A B _ u v c kind mid stop' hm hsplit hlen hB hbs =>
    obtain ⟨pos', mid', rest, he, hmid, hv⟩ := spelled?_cons_iff.mp hbs
    obtain ⟨hatom, rfl⟩ := List.cons.inj he
    obtain ⟨-, hc, rfl, rfl⟩ := Atom.leaf.inj hatom
    obtain rfl : '>' = c := toString_inj hc
    obtain rfl : mid = pos := by simpa using hmid
    obtain rfl : v = [] := by
      cases v with
      | nil => rfl
      | cons d v => cases hv
    -- the characters of the markers that end in `>`
    have hall : ∀ m ∈ markers, m.1.getLast? = some '>' →
        m.1.dropLast ∈ [[], ['='], ['/'], ['?'], ['-', '-']] := by decide
    have hu := hall _ hm (by simp)
    simp only [List.dropLast_concat, List.mem_cons, List.not_mem_nil, or_false] at hu
    rw [hsplit]
    rcases hu with rfl | rfl | rfl | rfl | rfl
    · cases hB
    · obtain ⟨p, rfl⟩ := eq_of_spelled?_singleton hB hlen
      rw [classify_singleton (by simp [marker?, markers, spelled?])]
      exact .sign (.inl rfl) rfl
    · obtain ⟨p, rfl⟩ := eq_of_spelled?_singleton hB hlen
      rw [classify_singleton (by simp [marker?, markers, spelled?])]
      exact .sign (.inr (.inl rfl)) rfl
    · obtain ⟨p, rfl⟩ := eq_of_spelled?_singleton hB hlen
      rw [classify_singleton (by simp [marker?, markers, spelled?])]
      exact .sign (.inr (.inr rfl)) rfl
    · obtain ⟨p, q, rest, rfl, -, hB⟩ := spelled?_cons_iff.mp hB
      obtain ⟨q', r, rest, rfl, hq, hend⟩ := spelled?_cons_iff.mp hB
      obtain rfl : q = q' := by simpa using hq
      obtain rfl : r = mid := Option.some.inj hend
      obtain rfl : rest = [] := by simpa using hlen
      rw [classify_punct (by simp [marker?, markers, spelled?]),
        classify_singleton (by simp [marker?, markers, spelled?])]
      exact .dashes rfl rfl rfl rfl

/-- What `>` does behind some tokens: it ends them, unless the last of them go on with it. -/
theorem classify_gt_iff : classify (as ++ [.leaf .punct ">" pos stop])
      = classify as ++ [.flat .gt ">" pos stop] ↔ ¬ GoesOn pos (classify as) := by
  constructor
  · intro h hgo
    generalize hts : classify as = ts at hgo
    rw [hts] at h
    cases hgo with
    | @sign ts t ht hpos =>
      rw [List.append_assoc] at h
      obtain ⟨A, B, rfl, -, hB, hlast, -⟩ :=
        classify_eq_append_marker h mem_markers_gt rfl rfl
      have hlen := congrArg List.length hlast
      rcases ht with ht | ht | ht
      all_goals
        rw [eq_of_classify_punct hB ht, hpos] at hlen
        simp [classify, marker?, markers, spelled?] at hlen
    | @dashes ts t u ht hu htouch hpos =>
      rw [List.append_assoc] at h
      obtain ⟨A, B, rfl, -, hB, hlast, -⟩ :=
        classify_eq_append_marker h mem_markers_gt rfl rfl
      obtain ⟨C, D, rfl, hC, hD⟩ := classify_eq_append (show classify B = [t] ++ [u] from hB)
      have hlen := congrArg List.length hlast
      rw [eq_of_classify_punct hC ht, eq_of_classify_punct hD hu, htouch, hpos] at hlen
      simp [classify, marker?, markers, spelled?] at hlen
  · intro hgo
    rcases classify_append_or as [.leaf .punct ">" pos stop] with h | h
    · rw [h]
      simp [classify, marker?, markers, spelled?]
    · exact absurd h.goesOn hgo

theorem mem_markers_instructionEnd : (['?', '>'], TokenKind.instructionEnd) ∈ markers := by decide

/-- The atom of a `<`. -/
theorem eq_of_classify_lt (h : classify as = [t]) (hk : t.kind = .lt) :
    as = [.leaf .punct "<" t.pos t.stop] := by
  have hmakes := makes_of_classify h
  obtain ⟨hlen, hs⟩ := hmakes.of_marker (m := (['<'], .lt)) (by decide) hk
  obtain ⟨pos, rfl⟩ := eq_of_spelled?_singleton hs hlen
  obtain ⟨⟨a, ha, hpos⟩, -⟩ := hmakes.spans
  obtain rfl := Option.some.inj ha
  rw [← hpos]
  rfl

/-- The marker that crosses to a `?` is `<?`. -/
theorem Crosses.last_lt (h : Crosses as (.leaf .punct "?" pos mid :: bs)) :
    ∃ t ∈ (classify as).getLast?, t.kind = .lt ∧ t.stop = pos := by
  cases h with
  | @mk A B _ u v c kind mid' stop' hm hsplit hlen hB hbs =>
    obtain ⟨pos', mid'', rest, he, hmid, -⟩ := spelled?_cons_iff.mp hbs
    obtain ⟨hatom, rfl⟩ := List.cons.inj he
    obtain ⟨-, hc, rfl, rfl⟩ := Atom.leaf.inj hatom
    obtain rfl : '?' = c := toString_inj hc
    obtain rfl : mid' = pos := by simpa using hmid
    -- no other marker has a `?` behind its first character
    have hall : ∀ m ∈ markers, '?' ∈ m.1.tail → m.1 = ['<', '?'] := by decide
    cases u with
    | nil => cases hB
    | cons d u =>
      obtain ⟨rfl, hu⟩ := List.cons.inj (hall _ hm (by simp))
      obtain rfl : u = [] := by
        rcases List.append_eq_singleton_iff.mp hu with ⟨rfl, -⟩ | ⟨-, hv⟩
        · rfl
        · cases hv
      obtain ⟨p, rfl⟩ := eq_of_spelled?_singleton hB hlen
      refine ⟨.flat .lt "<" p mid', ?_, rfl, rfl⟩
      rw [hsplit, classify_marker (m := (['<'], .lt, mid'))
        (by simp [marker?, markers, spelled?])]
      simp [classify]

/-- What `?>` does behind some tokens: it ends them, unless the last of them is a `<`, which goes on
with the `?`. -/
theorem classify_instructionEnd_iff :
    classify (as ++ [.leaf .punct "?" pos mid, .leaf .punct ">" mid stop])
        = classify as ++ [.flat .instructionEnd "?>" pos stop]
      ↔ ¬ ∃ t ∈ (classify as).getLast?, t.kind = .lt ∧ t.stop = pos := by
  constructor
  · rintro h ⟨t, ht, hk, hpos⟩
    obtain ⟨ts, hts⟩ := List.getLast?_eq_some_iff.mp ht
    rw [hts, List.append_assoc] at h
    obtain ⟨A, B, rfl, -, hB, hlast, -⟩ :=
      classify_eq_append_marker h mem_markers_instructionEnd rfl rfl
    rw [eq_of_classify_lt hB hk, hpos] at hlast
    have hkind := congrArg (fun ts : List Token => ts.map Token.kind) hlast
    simp [classify, marker?, markers, spelled?, Token.flat, Token.kind] at hkind
  · intro hlt
    rcases classify_append_or as [.leaf .punct "?" pos mid, .leaf .punct ">" mid stop] with h | h
    · rw [h]
      simp [classify, marker?, markers, spelled?]
    · exact absurd h.last_lt hlt

end MarkupTemplate
