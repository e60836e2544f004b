import MarkupTemplate.Proofs.Atom.Move
import MarkupTemplate.Token

/-!
# Tokens wherever they stand

The tokens of atoms that stand further on are the tokens further on, and atoms that no marker joins
become tokens independently of each other.

* `Token.shift`: a token, so many characters further on.
* `classify_shift`: the tokens of shifted atoms.
* `classify_append`: the tokens of two lists of atoms with no marker across.
* `group_of_occurs`: a group token comes from a group of atoms.
-/
namespace MarkupTemplate

namespace Token

mutual

/-- The token `n` characters further on. -/
def shift (n : Nat) : Token → Token
  | mk kind value pos stop inner children =>
    mk kind value (pos + n) (stop + n) inner (shiftAll n children)

/-- All tokens `n` characters further on. -/
def shiftAll (n : Nat) : List Token → List Token
  | [] => []
  | t :: ts => shift n t :: shiftAll n ts

end

theorem shiftAll_eq_map (n : Nat) (ts : List Token) : shiftAll n ts = ts.map (shift n) := by
  induction ts with
  | nil => rfl
  | cons t ts ih => rw [shiftAll, ih, List.map_cons]

@[simp] theorem shift_mk (n : Nat) (kind : TokenKind) (value : String) (pos stop : Nat)
    (inner : String) (children : List Token) : (mk kind value pos stop inner children).shift n
      = mk kind value (pos + n) (stop + n) inner (children.map (shift n)) := by
  rw [shift, shiftAll_eq_map]

@[simp] theorem shift_flat (n : Nat) (kind : TokenKind) (value : String) (pos stop : Nat) :
    (flat kind value pos stop).shift n = flat kind value (pos + n) (stop + n) := shift_mk ..

mutual

@[simp] theorem shift_zero : (t : Token) → t.shift 0 = t
  | mk _ _ _ _ _ children => by rw [shift, shiftAll_zero children]; rfl

theorem shiftAll_zero : (ts : List Token) → shiftAll 0 ts = ts
  | [] => rfl
  | t :: ts => by rw [shiftAll, shift_zero t, shiftAll_zero ts]

end

mutual

theorem shift_shift (m n : Nat) : (t : Token) → (t.shift m).shift n = t.shift (m + n)
  | mk _ _ _ _ _ children => by
    rw [shift, shift, shift, shiftAll_shiftAll m n children, Nat.add_assoc, Nat.add_assoc]

theorem shiftAll_shiftAll (m n : Nat) :
    (ts : List Token) → shiftAll n (shiftAll m ts) = shiftAll (m + n) ts
  | [] => rfl
  | t :: ts => by
    rw [shiftAll, shiftAll, shiftAll, shift_shift m n t, shiftAll_shiftAll m n ts]

end

theorem map_shift_shift (m n : Nat) (ts : List Token) :
    (ts.map (shift m)).map (shift n) = ts.map (shift (m + n)) := by
  rw [← shiftAll_eq_map, ← shiftAll_eq_map, ← shiftAll_eq_map, shiftAll_shiftAll]

@[simp] theorem map_shift_zero (ts : List Token) : ts.map (shift 0) = ts := by
  rw [← shiftAll_eq_map, shiftAll_zero]

@[simp] theorem kind_shift (n : Nat) (t : Token) : (t.shift n).kind = t.kind := by
  cases t; rfl

@[simp] theorem value_shift (n : Nat) (t : Token) : (t.shift n).value = t.value := by
  cases t; rfl

@[simp] theorem has_shift (n : Nat) (t : Token) (kind : TokenKind) (value : String) :
    (t.shift n).has kind value = t.has kind value := by
  rw [has, has, kind_shift, value_shift]

@[simp] theorem inner_shift (n : Nat) (t : Token) : (t.shift n).inner = t.inner := by
  cases t; rfl

@[simp] theorem pos_shift (n : Nat) (t : Token) : (t.shift n).pos = t.pos + n := by
  cases t; rfl

@[simp] theorem stop_shift (n : Nat) (t : Token) : (t.shift n).stop = t.stop + n := by
  cases t; rfl

@[simp] theorem children_shift (n : Nat) (t : Token) :
    (t.shift n).children = t.children.map (shift n) := by
  cases t; rw [shift_mk]; rfl

/-- The token and all that it contains lie between two offsets, and none of them stands for the
end. -/
inductive Placed (lo hi : Nat) : Token → Prop where
  | mk {kind : TokenKind} {value : String} {pos stop : Nat} {inner : String}
      {children : List Token} (hk : kind ≠ .endOfInput) (hp : lo ≤ pos ∧ pos ≤ hi)
      (hs : lo ≤ stop ∧ stop ≤ hi) (hc : ∀ t ∈ children, Placed lo hi t) :
      Placed lo hi (mk kind value pos stop inner children)

theorem Placed.stop_le {lo hi : Nat} {t : Token} (h : Placed lo hi t) : t.stop ≤ hi := by
  cases h with
  | mk _ _ hs _ => exact hs.2

theorem Placed.shift {lo hi : Nat} {t : Token} (h : Placed lo hi t) (n : Nat) :
    Placed (lo + n) (hi + n) (t.shift n) := by
  induction h with
  | mk hk hp hs _ ih =>
    rw [shift_mk]
    refine .mk hk (by omega) (by omega) fun t ht => ?_
    obtain ⟨u, hu, rfl⟩ := List.mem_map.mp ht
    exact ih u hu

/-- A token stands among the given ones or, at any depth, inside one of them. -/
inductive Occurs (t : Token) : List Token → Prop where
  | here {ts : List Token} (h : t ∈ ts) : Occurs t ts
  | inside {ts : List Token} {g : Token} (h : g ∈ ts) (ho : Occurs t g.children) : Occurs t ts

theorem not_occurs_nil {t : Token} : ¬ Occurs t [] := by
  rintro (h | h)
  · cases h
  · cases h

theorem Occurs.child {t g : Token} {ts : List Token} (h : Occurs g ts) (ht : t ∈ g.children) :
    Occurs t ts := by
  induction h with
  | here hg => exact .inside hg (.here ht)
  | inside hg _ ih => exact .inside hg ih

end Token

/-! ## Shifting -/

theorem spelled?_shift (n : Nat) (from? : Option Nat) (spelling : List Char) (as : List Atom) :
    spelled? (from?.map (· + n)) spelling (as.map (Atom.shift n))
      = (spelled? from? spelling as).map (· + n) := by
  induction spelling generalizing from? as with
  | nil => rfl
  | cons c spelling ih =>
    match as with
    | [] => rfl
    | .group _ _ _ _ _ :: _ => simp [spelled?]
    | .leaf .ident _ _ _ :: _ => rfl
    | .leaf .string _ _ _ :: _ => rfl
    | .leaf .number _ _ _ :: _ => rfl
    | .leaf .punct value pos stop :: as =>
      have hpos : (from?.map (· + n) = none ∨ from?.map (· + n) = some (pos + n))
          ↔ (from? = none ∨ from? = some pos) := by
        cases from? with
        | none => simp
        | some k => simp
      simp only [List.map_cons, Atom.shift_leaf, spelled?, hpos]
      split
      · exact ih (some stop) as
      · rfl

theorem findSome?_map {α β γ : Type} (f : α → Option β) (g : β → γ) (l : List α) :
    l.findSome? (fun a => (f a).map g) = (l.findSome? f).map g := by
  induction l with
  | nil => rfl
  | cons a l ih => rw [List.findSome?_cons, List.findSome?_cons]; cases f a <;> simp [ih]

theorem marker?_shift (n : Nat) (as : List Atom) :
    marker? (as.map (Atom.shift n)) = (marker? as).map fun m => (m.1, m.2.1, m.2.2 + n) := by
  unfold marker?
  rw [← findSome?_map]
  congr 1
  funext m
  have := spelled?_shift n none m.1 as
  rw [Option.map_none] at this
  rw [this, Option.map_map, Option.map_map]
  rfl

theorem classify_marker {value : String} {pos stop : Nat} {as : List Atom}
    {m : List Char × TokenKind × Nat} (h : marker? (.leaf .punct value pos stop :: as) = some m) :
    classify (.leaf .punct value pos stop :: as)
      = .flat m.2.1 (String.ofList m.1) pos m.2.2 :: classify (as.drop (m.1.length - 1)) := by
  rw [classify, if_pos rfl, h]

theorem classify_punct {value : String} {pos stop : Nat} {as : List Atom}
    (h : marker? (.leaf .punct value pos stop :: as) = none) :
    classify (.leaf .punct value pos stop :: as)
      = .flat .punct value pos stop :: classify as := by
  rw [classify, if_pos rfl, h]

theorem classify_leaf {kind : LeafKind} {value : String} {pos stop : Nat} {as : List Atom}
    (h : kind ≠ .punct) : classify (.leaf kind value pos stop :: as)
      = .flat (leafTokenKind kind value) value pos stop :: classify as := by
  rw [classify, if_neg h]

theorem classify_group {b : Bracket} {pos stop : Nat} {inner : String} {children as : List Atom} :
    classify (.group b pos stop inner children :: as)
      = .mk (groupTokenKind b) b.opener.toString pos stop inner (classify children)
        :: classify as := by
  rw [classify]

/-- The tokens of atoms further on are the tokens further on. -/
theorem classify_shift (n : Nat) (as : List Atom) :
    classify (as.map (Atom.shift n)) = (classify as).map (Token.shift n) := by
  fun_induction classify as with
  | case1 => simp [classify]
  | case2 b pos stop inner children atoms ihc ih =>
    rw [List.map_cons, Atom.shift_group, classify_group, ih, ihc]
    simp
  | case3 value pos stop atoms spelling markerKind markerStop hm ih =>
    have hm' := marker?_shift n (.leaf .punct value pos stop :: atoms)
    rw [hm, List.map_cons, Atom.shift_leaf, Option.map_some] at hm'
    rw [List.map_cons, Atom.shift_leaf, classify_marker hm', ← List.map_drop, ih]
    simp
  | case4 value pos stop atoms hm ih =>
    have hm' := marker?_shift n (.leaf .punct value pos stop :: atoms)
    rw [hm, List.map_cons, Atom.shift_leaf, Option.map_none] at hm'
    rw [List.map_cons, Atom.shift_leaf, classify_punct hm', ih]
    simp
  | case5 kind value pos stop atoms hk ih =>
    rw [List.map_cons, Atom.shift_leaf, classify_leaf hk, ih]
    simp

/-! ## Seams between tokens -/

/-- Two touching punctuation characters that stand next to each other in some marker. -/
def Joins (a b : Atom) : Prop :=
  ∃ c d pos mid stop, a = .leaf .punct (Char.toString c) pos mid
    ∧ b = .leaf .punct (Char.toString d) mid stop ∧ ∃ m ∈ markers, [c, d] <:+: m.1

/-- No marker goes across from the first atoms to the second. -/
def Apart (as bs : List Atom) : Prop := ∀ a ∈ as.getLast?, ∀ b ∈ bs.head?, ¬ Joins a b

theorem Apart.drop {as bs : List Atom} (h : Apart as bs) (n : Nat) : Apart (as.drop n) bs := by
  intro a ha b hb
  refine h a ?_ b hb
  rw [List.getLast?_drop] at ha
  split at ha
  · cases ha
  · exact ha

theorem Apart.tail {a : Atom} {as bs : List Atom} (h : Apart (a :: as) bs) : Apart as bs :=
  h.drop 1

theorem spelled?_append {m : List Char × TokenKind} (hm : m ∈ markers) {as bs : List Atom}
    (hne : as ≠ []) (h : Apart as bs) {from? : Option Nat} {u spelling : List Char}
    (hu : m.1 = u ++ spelling) :
    spelled? from? spelling (as ++ bs) = spelled? from? spelling as := by
  induction spelling generalizing as u from? with
  | nil => rfl
  | cons c spelling ih =>
    obtain ⟨a, as, rfl⟩ := List.exists_cons_of_ne_nil hne
    match a with
    | .group _ _ _ _ _ => rfl
    | .leaf .ident _ _ _ => rfl
    | .leaf .string _ _ _ => rfl
    | .leaf .number _ _ _ => rfl
    | .leaf .punct value pos stop =>
      rw [List.cons_append, spelled?, spelled?]
      split
      · next hc =>
        cases as with
        | cons a as =>
          exact ih (List.cons_ne_nil a as) h.tail (u := u ++ [c]) (by rw [hu]; simp)
        | nil =>
          -- the rest of the spelling would have to stand in the atoms behind the seam
          cases spelling with
          | nil => rfl
          | cons d spelling =>
            have hjoin : ∀ value' stop' bs', bs = .leaf .punct value' stop stop' :: bs' →
                value' ≠ d.toString := by
              rintro value' stop' bs' rfl rfl
              refine h (.leaf .punct value pos stop) rfl _ rfl
                ⟨c, d, pos, stop, stop', by rw [hc.1], rfl, m, hm, u, spelling, ?_⟩
              rw [hu]; simp
            match bs with
            | [] => rfl
            | .group _ _ _ _ _ :: _ => rfl
            | .leaf .ident _ _ _ :: _ => rfl
            | .leaf .string _ _ _ :: _ => rfl
            | .leaf .number _ _ _ :: _ => rfl
            | .leaf .punct value' pos' stop' :: bs' =>
              have hno : ¬ (value' = d.toString ∧ (some stop = none ∨ some stop = some pos')) := by
                rintro ⟨hv, hp | hp⟩
                · cases hp
                · exact hjoin value' stop' bs' (by rw [Option.some.inj hp]) hv
              rw [List.nil_append, spelled?, if_neg hno]
              rfl
      · rfl

theorem length_le_of_spelled? {from? : Option Nat} {spelling : List Char} {as : List Atom}
    {stop : Nat} (h : spelled? from? spelling as = some stop) : spelling.length ≤ as.length := by
  fun_induction spelled? from? spelling as with
  | case1 => exact Nat.zero_le _
  | case2 _ _ _ _ _ _ _ _ ih => exact Nat.succ_le_succ (ih h)
  | case3 => cases h
  | case4 => cases h

theorem mem_of_marker? {as : List Atom} {m : List Char × TokenKind × Nat}
    (h : marker? as = some m) : (m.1, m.2.1) ∈ markers ∧ spelled? none m.1 as = some m.2.2 := by
  obtain ⟨m', hm, he⟩ := List.exists_of_findSome?_eq_some h
  obtain ⟨stop, hs, rfl⟩ := Option.map_eq_some_iff.mp he
  exact ⟨hm, hs⟩

theorem findSome?_congr {α β : Type} {f g : α → Option β} {l : List α}
    (h : ∀ a ∈ l, f a = g a) : l.findSome? f = l.findSome? g := by
  induction l with
  | nil => rfl
  | cons a l ih =>
    rw [List.findSome?_cons, List.findSome?_cons, h a List.mem_cons_self,
      ih fun b hb => h b (List.mem_cons_of_mem a hb)]

theorem marker?_append {as bs : List Atom} (hne : as ≠ []) (h : Apart as bs) :
    marker? (as ++ bs) = marker? as := by
  unfold marker?
  refine findSome?_congr fun m hm => ?_
  rw [spelled?_append hm hne h (u := []) rfl]

/-- Atoms with a gap between them are apart. -/
theorem Apart.of_gap {as bs : List Atom} {n : Nat} (ha : ∀ a ∈ as, a.stop ≤ n)
    (hb : ∀ b ∈ bs, n < b.pos) : Apart as bs := by
  rintro a ha' b hb' ⟨c, d, pos, mid, stop, rfl, rfl, -⟩
  have h₁ := ha _ (List.mem_of_getLast? ha')
  have h₂ := hb _ (List.mem_of_head? hb')
  simp only [Atom.stop, Atom.pos] at h₁ h₂
  omega

/-- Markers start with punctuation, so an atom of another kind ends them. -/
theorem Apart.of_last {as bs : List Atom}
    (h : ∀ a ∈ as.getLast?, ∀ value pos stop, a ≠ .leaf .punct value pos stop) : Apart as bs := by
  rintro a ha b hb ⟨c, d, pos, mid, stop, rfl, rfl, -⟩
  exact h _ ha _ _ _ rfl

theorem Apart.of_head {as bs : List Atom}
    (h : ∀ b ∈ bs.head?, ∀ value pos stop, b ≠ .leaf .punct value pos stop) : Apart as bs := by
  rintro a ha b hb ⟨c, d, pos, mid, stop, rfl, rfl, -⟩
  exact h _ hb _ _ _ rfl

theorem toString_inj {c d : Char} (h : c.toString = d.toString) : c = d := by
  have hl := congrArg String.toList h
  simpa [Char.toString] using hl

/-- No marker goes on after `>`. -/
theorem Apart.of_gt {as bs : List Atom} {pos stop : Nat}
    (h : as.getLast? = some (.leaf .punct ">" pos stop)) : Apart as bs := by
  rintro a ha b hb ⟨c, d, pos', mid, stop', rfl, rfl, m, hm, u, v, huv⟩
  have hc : '>' = c := by
    rw [h] at ha
    exact toString_inj (Atom.leaf.inj (Option.some.inj ha)).2.1
  have hgt : ∀ m ∈ markers, '>' ∉ m.1.dropLast := by decide
  refine hgt m hm ?_
  rw [← huv, ← hc]
  simp

/-- No marker goes on with `<`. -/
theorem Apart.of_lt {as bs : List Atom} {pos stop : Nat}
    (h : bs.head? = some (.leaf .punct "<" pos stop)) : Apart as bs := by
  rintro a ha b hb ⟨c, d, pos', mid, stop', rfl, rfl, m, hm, u, v, huv⟩
  have hd : '<' = d := by
    rw [h] at hb
    exact toString_inj (Atom.leaf.inj (Option.some.inj hb)).2.1
  have hlt : ∀ m ∈ markers, '<' ∉ m.1.tail := by decide
  refine hlt m hm ?_
  rw [← huv, ← hd]
  cases u <;> simp

/-- The tokens of two lists of atoms with no marker across are the tokens of each. -/
theorem classify_append {as bs : List Atom} (h : Apart as bs) :
    classify (as ++ bs) = classify as ++ classify bs := by
  fun_induction classify as with
  | case1 => rfl
  | case2 b pos stop inner children atoms _ ih =>
    rw [List.cons_append, classify_group, ih h.tail]
    rfl
  | case3 value pos stop atoms spelling markerKind markerStop hm ih =>
    have hm' := (marker?_append (List.cons_ne_nil _ _) h).trans hm
    rw [List.cons_append] at hm'
    have hlen := length_le_of_spelled? (mem_of_marker? hm).2
    simp only [List.length_cons] at hlen
    rw [List.cons_append, classify_marker hm',
      List.drop_append_of_le_length (by show spelling.length - 1 ≤ _; omega), ih (h.tail.drop _)]
    rfl
  | case4 value pos stop atoms hm ih =>
    have hm' := (marker?_append (List.cons_ne_nil _ _) h).trans hm
    rw [List.cons_append] at hm'
    rw [List.cons_append, classify_punct hm', ih h.tail]
    rfl
  | case5 kind value pos stop atoms hk ih =>
    rw [List.cons_append, classify_leaf hk, ih h.tail]
    rfl

/-! ## First and last tokens -/

theorem markers_kind : ∀ m ∈ markers, m.2 ≠ .ident ∧ m.2 ≠ .keyword ∧ m.2 ≠ .number := by
  decide

/-- A token that opens a name is the first atom, a word. -/
theorem head_atom_of_word {as : List Atom} {t : Token} {ts : List Token}
    (h : classify as = t :: ts) (hk : t.kind = .ident ∨ t.kind = .keyword) :
    ∃ value pos stop as', as = .leaf .ident value pos stop :: as' := by
  fun_cases classify as with
  | case1 => rw [classify] at h; cases h
  | case2 b pos stop inner children as =>
    rw [classify_group] at h
    obtain ⟨rfl, -⟩ := List.cons.inj h
    cases b <;> rcases hk with hk | hk <;> cases hk
  | case3 value pos stop as spelling kind stop' hm =>
    rw [classify_marker hm] at h
    obtain ⟨rfl, -⟩ := List.cons.inj h
    have hne := markers_kind _ (mem_of_marker? hm).1
    rcases hk with hk | hk
    · exact absurd hk hne.1
    · exact absurd hk hne.2.1
  | case4 value pos stop as hm =>
    rw [classify_punct hm] at h
    obtain ⟨rfl, -⟩ := List.cons.inj h
    rcases hk with hk | hk <;> cases hk
  | case5 kind value pos stop as hp =>
    rw [classify_leaf hp] at h
    obtain ⟨rfl, -⟩ := List.cons.inj h
    cases kind with
    | ident => exact ⟨value, pos, stop, as, rfl⟩
    | string => rcases hk with hk | hk <;> cases hk
    | number => rcases hk with hk | hk <;> cases hk
    | punct => exact absurd rfl hp

theorem classify_ne_nil {as : List Atom} (h : as ≠ []) : classify as ≠ [] := by
  fun_cases classify as with
  | case1 => exact absurd rfl h
  | case2 => exact List.cons_ne_nil _ _
  | case3 => exact List.cons_ne_nil _ _
  | case4 => exact List.cons_ne_nil _ _
  | case5 => exact List.cons_ne_nil _ _

/-- The last token of atoms that end in punctuation is punctuation or a marker. -/
theorem getLast_token_of_punct {as : List Atom} {value : String} {pos stop : Nat}
    (h : as.getLast? = some (.leaf .punct value pos stop)) :
    ∃ t, (classify as).getLast? = some t ∧ (t.kind = .punct ∨ ∃ m ∈ markers, t.kind = m.2) := by
  -- a token in front of others does not matter
  have hcons : ∀ {t : Token} {as : List Atom}, as ≠ [] →
      (t :: classify as).getLast? = (classify as).getLast? := by
    intro t as hne
    obtain ⟨u, us, hu⟩ := List.exists_cons_of_ne_nil (classify_ne_nil hne)
    rw [hu, List.getLast?_cons_cons]
  have htail : ∀ {a b : Atom} {as : List Atom}, (a :: as).getLast? = some b →
      as = [] ∧ a = b ∨ as ≠ [] ∧ as.getLast? = some b := by
    intro a b as h
    cases as with
    | nil => exact .inl ⟨rfl, Option.some.inj h⟩
    | cons c as => exact .inr ⟨List.cons_ne_nil c as, List.getLast?_cons_cons ▸ h⟩
  fun_induction classify as with
  | case1 => cases h
  | case2 b pos stop inner children as _ ih =>
    rcases htail h with ⟨-, hb⟩ | ⟨hne, hl⟩
    · cases hb
    · rw [hcons hne]
      exact ih hl
  | case3 value' pos' stop' as spelling kind mstop hm ih =>
    by_cases hne : as.drop (spelling.length - 1) = []
    · rw [hne]
      refine ⟨_, by rw [classify]; rfl, .inr ⟨_, (mem_of_marker? hm).1, rfl⟩⟩
    · rw [hcons hne]
      refine ih ?_
      rcases htail h with ⟨rfl, -⟩ | ⟨-, hl⟩
      · simp at hne
      · rw [List.getLast?_drop, if_neg, hl]
        simpa using hne
  | case4 value' pos' stop' as hm ih =>
    rcases htail h with ⟨rfl, -⟩ | ⟨hne, hl⟩
    · exact ⟨_, by rw [classify]; rfl, .inl rfl⟩
    · rw [hcons hne]
      exact ih hl
  | case5 kind value' pos' stop' as hp ih =>
    rcases htail h with ⟨rfl, hb⟩ | ⟨hne, hl⟩
    · exact absurd (Atom.leaf.inj hb).1 hp
    · rw [hcons hne]
      exact ih hl

/-! ## Where tokens stand -/

theorem stop_mem_of_spelled? {from? : Option Nat} {spelling : List Char} {as : List Atom}
    {stop : Nat} (h : spelled? from? spelling as = some stop) :
    from? = some stop ∨ ∃ value pos, Atom.leaf .punct value pos stop ∈ as := by
  fun_induction spelled? from? spelling as with
  | case1 => exact .inl h
  | case2 _ _ _ _ _ _ _ _ ih =>
    rcases ih h with he | ⟨value, pos, hm⟩
    · obtain rfl := Option.some.inj he
      exact .inr ⟨_, _, List.mem_cons_self⟩
    · exact .inr ⟨value, pos, List.mem_cons_of_mem _ hm⟩
  | case3 => cases h
  | case4 => cases h

/-- True of a kind that is neither the end nor a group. -/
def TokenKind.isFlat (kind : TokenKind) : Bool :=
  !([TokenKind.endOfInput, .paren, .bracket, .brace].contains kind)

theorem TokenKind.ne_endOfInput_of_isFlat {kind : TokenKind} (h : kind.isFlat = true) :
    kind ≠ .endOfInput := by
  rintro rfl; exact absurd h (by decide)

theorem TokenKind.ne_group_of_isFlat {kind : TokenKind} (h : kind.isFlat = true) (b : Bracket) :
    kind ≠ groupTokenKind b := by
  rintro rfl; cases b <;> exact absurd h (by decide)

theorem isFlat_leafTokenKind (kind : LeafKind) (value : String) :
    (leafTokenKind kind value).isFlat = true := by
  cases kind with
  | ident => cases hk : keywords.contains value <;> simp only [leafTokenKind, hk] <;> rfl
  | string => rfl
  | number => rfl
  | punct => rfl

theorem isFlat_of_mem_markers : ∀ m ∈ markers, m.2.isFlat = true := by decide

theorem classify_placed {lo hi : Nat} {as : List Atom} (h : ∀ a ∈ as, a.Within lo hi) :
    ∀ t ∈ classify as, t.Placed lo hi := by
  fun_induction classify as with
  | case1 => simp
  | case2 b pos stop inner children atoms ihc ih =>
    rw [List.forall_mem_cons] at h
    obtain ⟨hg, h⟩ := h
    cases hg with
    | group hp hl hs hc =>
      refine List.forall_mem_cons.mpr ⟨.mk ?_ ⟨hp, by omega⟩ ⟨by omega, hs⟩ (ihc hc), ih h⟩
      cases b <;> decide
  | case3 value pos stop atoms spelling markerKind markerStop hm ih =>
    obtain ⟨hmem, hspell⟩ := mem_of_marker? hm
    have hstop : lo ≤ markerStop ∧ markerStop ≤ hi := by
      rcases stop_mem_of_spelled? hspell with he | ⟨v, p, hv⟩
      · cases he
      · cases h _ hv with
        | leaf hp hl hs => exact ⟨Nat.le_trans hp hl, hs⟩
    rw [List.forall_mem_cons] at h
    obtain ⟨hg, h⟩ := h
    cases hg with
    | leaf hp hl hs =>
      have hk := TokenKind.ne_endOfInput_of_isFlat (isFlat_of_mem_markers _ hmem)
      refine List.forall_mem_cons.mpr ⟨.mk hk ⟨hp, by omega⟩ hstop (by simp), ?_⟩
      exact ih fun a ha => h a (List.mem_of_mem_drop ha)
  | case4 value pos stop atoms hm ih =>
    rw [List.forall_mem_cons] at h
    obtain ⟨hg, h⟩ := h
    cases hg with
    | leaf hp hl hs =>
      exact List.forall_mem_cons.mpr
        ⟨.mk (by decide) ⟨hp, by omega⟩ ⟨by omega, hs⟩ (by simp), ih h⟩
  | case5 kind value pos stop atoms hk ih =>
    rw [List.forall_mem_cons] at h
    obtain ⟨hg, h⟩ := h
    cases hg with
    | leaf hp hl hs =>
      have hk := TokenKind.ne_endOfInput_of_isFlat (isFlat_leafTokenKind kind value)
      exact List.forall_mem_cons.mpr ⟨.mk hk ⟨hp, by omega⟩ ⟨by omega, hs⟩ (by simp), ih h⟩

/-- A token is a flat one, or comes from a group of atoms. -/
theorem mem_classify {as : List Atom} {t : Token} (h : t ∈ classify as) :
    (t.children = [] ∧ t.kind.isFlat = true) ∨ ∃ b pos stop inner children,
      Atom.group b pos stop inner children ∈ as
        ∧ t = .mk (groupTokenKind b) b.opener.toString pos stop inner (classify children) := by
  fun_induction classify as with
  | case1 => cases h
  | case2 b pos stop inner children atoms _ ih =>
    rcases List.mem_cons.mp h with rfl | h
    · exact .inr ⟨b, pos, stop, inner, children, List.mem_cons_self, rfl⟩
    · refine (ih h).imp_right ?_
      rintro ⟨b', pos', stop', inner', children', hm, ht⟩
      exact ⟨b', pos', stop', inner', children', List.mem_cons_of_mem _ hm, ht⟩
  | case3 value pos stop atoms spelling markerKind markerStop hm ih =>
    rcases List.mem_cons.mp h with rfl | h
    · exact .inl ⟨rfl, isFlat_of_mem_markers _ (mem_of_marker? hm).1⟩
    · refine (ih h).imp_right ?_
      rintro ⟨b', pos', stop', inner', children', hm, ht⟩
      exact ⟨b', pos', stop', inner', children', List.mem_cons_of_mem _ (List.mem_of_mem_drop hm),
        ht⟩
  | case4 value pos stop atoms hm ih =>
    rcases List.mem_cons.mp h with rfl | h
    · exact .inl ⟨rfl, rfl⟩
    · refine (ih h).imp_right ?_
      rintro ⟨b', pos', stop', inner', children', hm, ht⟩
      exact ⟨b', pos', stop', inner', children', List.mem_cons_of_mem _ hm, ht⟩
  | case5 kind value pos stop atoms hk ih =>
    rcases List.mem_cons.mp h with rfl | h
    · exact .inl ⟨rfl, isFlat_leafTokenKind kind value⟩
    · refine (ih h).imp_right ?_
      rintro ⟨b', pos', stop', inner', children', hm, ht⟩
      exact ⟨b', pos', stop', inner', children', List.mem_cons_of_mem _ hm, ht⟩

/-- A group token, at any depth, comes from a group of atoms. -/
theorem group_of_occurs {as : List Atom} {g : Token} {b : Bracket}
    (h : Token.Occurs g (classify as)) (hg : g.kind = groupTokenKind b) :
    ∃ b' pos stop inner children, Atom.Occurs (.group b' pos stop inner children) as
      ∧ g = .mk (groupTokenKind b') b'.opener.toString pos stop inner (classify children) := by
  generalize hts : classify as = ts at h
  induction h generalizing as with
  | here h =>
    subst hts
    rcases mem_classify h with ⟨-, hk⟩ | ⟨b', pos, stop, inner, children, hm, ht⟩
    · exact absurd hg (TokenKind.ne_group_of_isFlat hk b)
    · exact ⟨b', pos, stop, inner, children, .here hm, ht⟩
  | inside h ho ih =>
    subst hts
    rcases mem_classify h with ⟨hc, -⟩ | ⟨b', pos, stop, inner, children, hm, rfl⟩
    · rw [hc] at ho
      exact absurd ho Token.not_occurs_nil
    · obtain ⟨b', pos, stop, inner, children, hm', ht⟩ := ih (rfl : classify children = _)
      exact ⟨b', pos, stop, inner, children, .inside hm hm', ht⟩

end MarkupTemplate
