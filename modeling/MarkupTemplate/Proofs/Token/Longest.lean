import MarkupTemplate.Proofs.Atom.Level
import MarkupTemplate.Proofs.Token.Segment

/-!
# Tokens are read leftmost-longest

From left to right, every atom goes into one token. Where a token starts with punctuation it is the
longest marker that touching punctuation spells from there on, or that one character if no marker is
spelled there; any other atom is a token by itself.

* `Scanned`: the atoms of a text from an offset on, or of a group among them.
* `Spell`, `Starts`: touching punctuation that spells a marker.
* `Munch`, `Munched`: the leftmost-longest reading of atoms, token by token.
* `marker?_longest`: the first marker of the table that is spelled is the longest.
* `Munched.order`, `Munched.cover`: the spans of the tokens.
* `classify_munches`: the tokens of a text are read leftmost-longest and lose nothing.
-/
namespace MarkupTemplate

/-! ## Atoms of a text -/

/-- The atoms of a text from an offset on, or those of a group among them, at any depth. -/
inductive Scanned (text : List Char) : List Atom → Prop where
  | whole {offset : Nat} {as : List Atom} (h : scan text offset = .ok as) : Scanned text as
  | inside {as : List Atom} {b : Bracket} {pos stop : Nat} {inner : String}
      {children : List Atom} (h : Scanned text as) (hm : .group b pos stop inner children ∈ as) :
      Scanned text children

namespace Scanned

variable {text : List Char} {as : List Atom}

theorem passes (h : Scanned text as) : ∃ p q, p.text = text ∧ Scan.Passes p as q := by
  induction h with
  | @whole offset as h =>
    obtain ⟨q, hq, -⟩ := scan_from_eq_ok_iff_passes.mp h
    exact ⟨_, q, Place.text_ofOffset text offset, hq⟩
  | inside _ hm ih =>
    obtain ⟨p, q, rfl, hq⟩ := ih
    obtain ⟨p', q', more, rest, htext, hr, hpass, -⟩ := hq.group_of_occurs (.here hm)
    exact ⟨p'.advance 1, q', by rw [Place.text_advance, htext], hpass⟩

/-- They partition a part of the text. -/
theorem partition (h : Scanned text as) :
    ∃ lo hi, hi ≤ text.length ∧ Partition text lo hi as := by
  obtain ⟨p, q, rfl, hq⟩ := h.passes
  refine ⟨p.pos, q.pos, ?_, hq.partition⟩
  rw [← hq.text_eq, Place.text, List.length_append, List.length_reverse, ← q.pos_eq]
  omega

theorem shows (h : Scanned text as) : ∀ a ∈ as, a.Shows text := by
  obtain ⟨lo, hi, -, -, -, -, shows, -⟩ := h.partition
  exact fun a ha => (shows a ha).1

end Scanned

/-! ## Spelled markers -/

/-- True of a punctuation character. -/
def Atom.isPunct : Atom → Bool
  | leaf .punct _ _ _ => true
  | _ => false

/-- The atoms are the characters of a spelling, each touching the one before it. -/
structure Spell (spelling : List Char) (as : List Atom) : Prop where
  chars : List.Forall₂ (fun c a => ∃ pos stop, a = .leaf .punct (Char.toString c) pos stop)
    spelling as
  touch : as.IsChain fun a b => a.stop = b.pos

/-- The first of the atoms spell a spelling. -/
def Starts (spelling : List Char) (as : List Atom) : Prop := ∃ A, A <+: as ∧ Spell spelling A

theorem Spell.length_eq {spelling : List Char} {as : List Atom} (h : Spell spelling as) :
    spelling.length = as.length := h.chars.length_eq

theorem Spell.mem {spelling : List Char} {as : List Atom} (h : Spell spelling as) {a : Atom}
    (ha : a ∈ as) : ∃ c ∈ spelling, ∃ pos stop, a = .leaf .punct (Char.toString c) pos stop := by
  obtain ⟨hchars, -⟩ := h
  induction hchars with
  | nil => cases ha
  | @cons c x spelling as hx _ ih =>
    rcases List.mem_cons.mp ha with rfl | ha
    · exact ⟨c, List.mem_cons_self, hx⟩
    · obtain ⟨d, hd, he⟩ := ih ha
      exact ⟨d, List.mem_cons_of_mem c hd, he⟩

/-- The same atoms do not spell two different things of one length. -/
theorem Starts.unique {u v : List Char} {as : List Atom} (hu : Starts u as) (hv : Starts v as)
    (hlen : u.length = v.length) : u = v := by
  obtain ⟨A, hA, hsu⟩ := hu
  obtain ⟨B, hB, hsv⟩ := hv
  obtain rfl : A = B := by
    rw [List.prefix_iff_eq_take.mp hA, List.prefix_iff_eq_take.mp hB, ← hsu.length_eq,
      ← hsv.length_eq, hlen]
  refine List.left_unique_forall₂' ?_ hsu.chars hsv.chars
  rintro c _ d ⟨pos, stop, rfl⟩ ⟨pos', stop', he⟩
  exact toString_inj (Atom.leaf.inj he).2.1

/-- The first character of a spelling touches the others. -/
theorem Spell.cons {c : Char} {spelling : List Char} {as : List Atom} {pos stop : Nat}
    (h : Spell spelling as) (htouch : ∀ a ∈ as.head?, stop = a.pos) :
    Spell (c :: spelling) (.leaf .punct (Char.toString c) pos stop :: as) where
  chars := .cons ⟨pos, stop, rfl⟩ h.chars
  touch := List.isChain_cons.mpr ⟨htouch, h.touch⟩

theorem Spell.exists_cons {c : Char} {spelling : List Char} {as : List Atom}
    (h : Spell (c :: spelling) as) :
    ∃ pos stop bs, as = .leaf .punct (Char.toString c) pos stop :: bs
      ∧ (∀ b ∈ bs.head?, stop = b.pos) ∧ Spell spelling bs := by
  obtain ⟨hchars, htouch⟩ := h
  cases hchars with
  | cons ha hbs =>
    obtain ⟨pos, stop, rfl⟩ := ha
    obtain ⟨hhead, htouch⟩ := List.isChain_cons.mp htouch
    exact ⟨pos, stop, _, rfl, hhead, hbs, htouch⟩

/-- A list of atoms ends where its last atom does. -/
theorem stop_getLast?_cons (a : Atom) (as : List Atom) (from? : Option Nat) :
    ((a :: as).getLast?.map Atom.stop).or from? = (as.getLast?.map Atom.stop).or (some a.stop) := by
  rw [List.getLast?_cons]
  cases as.getLast? <;> rfl

/-- The test for a spelling, from any atom of a marker on. -/
theorem spelled?_eq_some_iff {from? : Option Nat} {spelling : List Char} {as : List Atom}
    {stop : Nat} : spelled? from? spelling as = some stop ↔ ∃ A C, as = A ++ C ∧ Spell spelling A
      ∧ (∀ k ∈ from?, ∀ a ∈ A.head?, k = a.pos) ∧ (A.getLast?.map Atom.stop).or from? = some stop := by
  fun_induction spelled? from? spelling as with
  | case1 from? as =>
    constructor
    · intro h
      exact ⟨[], as, rfl, ⟨.nil, .nil⟩, by simp, h⟩
    · rintro ⟨A, C, -, hs, -, h⟩
      obtain rfl := List.length_eq_zero_iff.mp hs.length_eq.symm
      exact h
  | case2 from? c spelling value pos mid as hc ih =>
    obtain ⟨rfl, hfrom⟩ := hc
    rw [ih]
    constructor
    · rintro ⟨A, C, rfl, hs, hhead, hlast⟩
      refine ⟨_, C, rfl, hs.cons (hhead mid rfl), ?_, by rw [stop_getLast?_cons]; exact hlast⟩
      rintro k hk a ⟨⟩
      obtain rfl | rfl := hfrom
      · cases hk
      · exact (Option.some.inj hk).symm
    · rintro ⟨A, C, hAC, hs, -, hlast⟩
      obtain ⟨pos', stop', B, rfl, htouch, hB⟩ := hs.exists_cons
      obtain ⟨ha, rfl⟩ := List.cons.inj hAC
      obtain ⟨-, -, rfl, rfl⟩ := Atom.leaf.inj ha
      rw [stop_getLast?_cons] at hlast
      exact ⟨B, C, rfl, hB, fun k hk b hb => Option.some.inj hk ▸ htouch b hb, hlast⟩
  | case3 from? c spelling value pos mid as hc =>
    constructor
    · intro h
      cases h
    · rintro ⟨A, C, hAC, hs, hhead, -⟩
      obtain ⟨pos', stop', B, rfl, -, -⟩ := hs.exists_cons
      obtain ⟨-, rfl, rfl, rfl⟩ := Atom.leaf.inj (List.cons.inj hAC).1
      refine absurd ⟨rfl, ?_⟩ hc
      cases from? with
      | none => exact .inl rfl
      | some k => exact .inr (congrArg some (hhead k rfl _ rfl))
  | case4 from? c spelling as hno =>
    constructor
    · intro h
      cases h
    · rintro ⟨A, C, rfl, hs, -, -⟩
      obtain ⟨pos, stop, B, rfl, -, -⟩ := hs.exists_cons
      exact absurd rfl (hno _ _ _ _)

theorem Starts.spelled {spelling : List Char} {as : List Atom} (h : Starts spelling as)
    (hne : 0 < spelling.length) : ∃ stop, spelled? none spelling as = some stop := by
  obtain ⟨A, ⟨C, rfl⟩, hs⟩ := h
  obtain ⟨z, hz⟩ : ∃ z, A.getLast? = some z := by
    refine Option.isSome_iff_exists.mp (List.getLast?_isSome.mpr ?_)
    rintro rfl
    have := hs.length_eq
    rw [List.length_nil] at this
    omega
  exact ⟨z.stop, spelled?_eq_some_iff.mpr ⟨A, C, rfl, hs, nofun, by rw [hz]; rfl⟩⟩

/-! ## The longest marker -/

/-- No marker of the table follows a shorter one. -/
theorem markers_sorted : markers.Pairwise fun m m' => m'.1.length ≤ m.1.length := by decide

theorem eq_of_spelling : ∀ m ∈ markers, ∀ m' ∈ markers, m.1 = m'.1 → m = m' := by decide

/-- Of the markers that the atoms spell, the first of the table is longer than all others. -/
theorem marker?_longest {as : List Atom} {m : List Char × TokenKind × Nat}
    (h : marker? as = some m) : ∀ m' ∈ markers, Starts m'.1 as → m' ≠ (m.1, m.2.1) →
      m'.1.length < m.1.length := by
  obtain ⟨hmem, hspell⟩ := mem_of_marker? h
  have hstarts : Starts m.1 as := by
    obtain ⟨A, C, rfl, hs, -⟩ := spelled?_eq_some_iff.mp hspell
    exact ⟨A, List.prefix_append A C, hs⟩
  intro m' hm' hs hne
  obtain ⟨before, k, after, hsplit, hk, hnone⟩ := List.findSome?_eq_some_iff.mp h
  obtain ⟨stop, -, rfl⟩ := Option.map_eq_some_iff.mp hk
  have hsorted := markers_sorted
  have hm'' := hm'
  rw [hsplit] at hsorted hm''
  have hle : m'.1.length ≤ k.1.length := by
    rcases List.mem_append.mp hm'' with hb | ha
    · -- the markers before it in the table are not spelled
      obtain ⟨stop', he⟩ := hs.spelled (ne_nil_of_mem_markers m' hm')
      have := hnone m' hb
      rw [he] at this
      cases this
    · rcases List.mem_cons.mp ha with rfl | ha
      · exact Nat.le_refl _
      · exact (List.pairwise_cons.mp (List.pairwise_append.mp hsorted).2.1).1 m' ha
  refine Nat.lt_of_le_of_ne hle fun hlen => hne ?_
  exact eq_of_spelling m' hm' k hmem (hs.unique hstarts hlen)

theorem not_starts_of_marker? {as : List Atom} (h : marker? as = none) :
    ∀ m ∈ markers, ¬ Starts m.1 as := by
  intro m hm hs
  obtain ⟨stop, he⟩ := hs.spelled (ne_nil_of_mem_markers m hm)
  have := List.findSome?_eq_none_iff.mp h m hm
  rw [he] at this
  cases this

/-! ## Leftmost-longest readings -/

/-- The first atoms, which the atoms `rest` follow, become a token. -/
inductive Munch : List Atom → List Atom → Token → Prop where
  /-- An atom that is no punctuation keeps its span and its value. -/
  | leaf {kind : LeafKind} {value : String} {pos stop : Nat} {rest : List Atom}
      (hk : kind ≠ .punct) : Munch [.leaf kind value pos stop] rest
        (.flat (leafTokenKind kind value) value pos stop)
  | group {b : Bracket} {pos stop : Nat} {inner : String} {children rest : List Atom} :
      Munch [.group b pos stop inner children] rest
        (.mk (groupTokenKind b) b.opener.toString pos stop inner (classify children))
  /-- A marker that is spelled, while no longer one is spelled, nor another one of its length. -/
  | marker {m : List Char × TokenKind} {as rest : List Atom} {a z : Atom} (hm : m ∈ markers)
      (hs : Spell m.1 as) (ha : as.head? = some a) (hz : as.getLast? = some z)
      (hlongest : ∀ m' ∈ markers, Starts m'.1 (as ++ rest) → m' ≠ m → m'.1.length < m.1.length) :
      Munch as rest (.flat m.2 (String.ofList m.1) a.pos z.stop)
  /-- A character with which no marker starts. -/
  | single {value : String} {pos stop : Nat} {rest : List Atom}
      (hno : ∀ m ∈ markers, ¬ Starts m.1 (.leaf .punct value pos stop :: rest)) :
      Munch [.leaf .punct value pos stop] rest (.flat .punct value pos stop)

/-- The atoms become the tokens, from left to right. -/
inductive Munched : List Atom → List Token → Prop where
  | nil : Munched [] []
  | cons {as rest : List Atom} {t : Token} {ts : List Token} (h : Munch as rest t)
      (h' : Munched rest ts) : Munched (as ++ rest) (t :: ts)

theorem munched_classify (as : List Atom) : Munched as (classify as) := by
  fun_induction classify as with
  | case1 => exact .nil
  | case2 b pos stop inner children atoms _ ih => exact .cons .group ih
  | case3 value pos stop atoms spelling kind markerStop hm ih =>
    obtain ⟨hmem, hspell⟩ := mem_of_marker? hm
    have hlongest := marker?_longest hm
    obtain ⟨A, C, hAC, hs, -, hlast⟩ := spelled?_eq_some_iff.mp hspell
    have hpos : 0 < spelling.length := ne_nil_of_mem_markers _ hmem
    have hlen : spelling.length = A.length := hs.length_eq
    obtain ⟨a, A, rfl⟩ := List.exists_cons_of_length_pos (hlen ▸ hpos)
    obtain ⟨rfl, rfl : atoms = A ++ C⟩ := List.cons.inj hAC
    rw [List.getLast?_cons, Option.map_some, Option.some_or] at hlast
    rw [hlen, List.length_cons, Nat.add_sub_cancel, List.drop_left] at ih ⊢
    rw [← List.cons_append,
      show markerStop = (A.getLast?.getD (.leaf .punct value pos stop)).stop from
        (Option.some.inj hlast).symm]
    exact .cons (.marker (m := (spelling, kind)) hmem hs rfl List.getLast?_cons hlongest) ih
  | case4 value pos stop atoms hm ih => exact .cons (.single (not_starts_of_marker? hm)) ih
  | case5 kind value pos stop atoms hk ih => exact .cons (.leaf hk) ih

theorem Munch.spans {as rest : List Atom} {t : Token} (h : Munch as rest t) : Spans as t := by
  cases h with
  | leaf => exact ⟨⟨_, rfl, rfl⟩, _, rfl, rfl⟩
  | group => exact ⟨⟨_, rfl, rfl⟩, _, rfl, rfl⟩
  | marker _ _ ha hz => exact ⟨⟨_, ha, rfl⟩, _, hz, rfl⟩
  | single => exact ⟨⟨_, rfl, rfl⟩, _, rfl, rfl⟩

/-! ## Spans -/

/-- Atoms that stand one after the other, none of them empty. -/
structure InOrder (as : List Atom) : Prop where
  order : as.Pairwise fun a b => a.stop ≤ b.pos
  lt : ∀ a ∈ as, a.pos < a.stop

/-- The span of an atom lies in that of a token. -/
def Token.Covers (t : Token) (a : Atom) : Prop := t.pos ≤ a.pos ∧ a.stop ≤ t.stop

theorem InOrder.left {as bs : List Atom} (h : InOrder (as ++ bs)) : InOrder as :=
  ⟨(List.pairwise_append.mp h.order).1, fun a ha => h.lt a (List.mem_append_left bs ha)⟩

theorem InOrder.right {as bs : List Atom} (h : InOrder (as ++ bs)) : InOrder bs :=
  ⟨(List.pairwise_append.mp h.order).2.1, fun b hb => h.lt b (List.mem_append_right as hb)⟩

theorem Spans.covers {as : List Atom} {t : Token} (h : Spans as t) (ho : InOrder as) {x : Atom}
    (hx : x ∈ as) : t.Covers x := by
  obtain ⟨⟨a, ha, hpos⟩, z, hz, hstop⟩ := h
  rw [Token.Covers, ← hpos, ← hstop]
  constructor
  · obtain ⟨as, rfl⟩ := List.head?_eq_some_iff.mp ha
    rcases List.mem_cons.mp hx with rfl | hx
    · exact Nat.le_refl _
    · have := (List.pairwise_cons.mp ho.order).1 x hx
      have := ho.lt a List.mem_cons_self
      omega
  · obtain ⟨init, rfl⟩ := List.getLast?_eq_some_iff.mp hz
    rcases List.mem_append.mp hx with hx | hx
    · have := (List.pairwise_append.mp ho.order).2.2 x hx z List.mem_cons_self
      have := ho.lt z (by simp)
      omega
    · rw [List.mem_singleton.mp hx]

namespace Munched

variable {as : List Atom} {ts : List Token}

/-- A token starts where one of the atoms starts, and is not empty. -/
theorem pos_mem (h : Munched as ts) (ho : InOrder as) {t : Token} (ht : t ∈ ts) :
    t.pos < t.stop ∧ ∃ a ∈ as, a.pos = t.pos := by
  induction h with
  | nil => cases ht
  | cons hA hrest ih =>
    rcases List.mem_cons.mp ht with rfl | ht
    · have hs := hA.spans
      obtain ⟨⟨a, ha, hpos⟩, -⟩ := hs
      have hmem := List.mem_of_head? ha
      have hc := hA.spans.covers ho.left hmem
      have := ho.left.lt a hmem
      exact ⟨by rw [Token.Covers] at hc; omega, a, List.mem_append_left _ hmem, hpos⟩
    · obtain ⟨hlt, a, ha, hpos⟩ := ih ho.right ht
      exact ⟨hlt, a, List.mem_append_right _ ha, hpos⟩

theorem order (h : Munched as ts) (ho : InOrder as) :
    ts.Pairwise fun t u => t.stop ≤ u.pos := by
  induction h with
  | nil => exact .nil
  | cons hA hrest ih =>
    refine List.pairwise_cons.mpr ⟨fun u hu => ?_, ih ho.right⟩
    obtain ⟨-, z, hz, hstop⟩ := hA.spans
    obtain ⟨-, b, hb, hpos⟩ := hrest.pos_mem ho.right hu
    rw [← hstop, ← hpos]
    exact (List.pairwise_append.mp ho.order).2.2 z (List.mem_of_getLast? hz) b hb

/-- Each atom is covered by one of the tokens. -/
theorem cover (h : Munched as ts) (ho : InOrder as) {a : Atom} (ha : a ∈ as) :
    ∃ t ∈ ts, t.Covers a := by
  induction h with
  | nil => cases ha
  | @cons A rest t ts hA hrest ih =>
    rcases List.mem_append.mp ha with ha | ha
    · exact ⟨t, List.mem_cons_self, hA.spans.covers ho.left ha⟩
    · obtain ⟨t, ht, hc⟩ := ih ho.right ha
      exact ⟨t, List.mem_cons_of_mem _ ht, hc⟩

/-- An atom that is no punctuation is a token by itself. -/
theorem exists_munch (h : Munched as ts) {a : Atom} (ha : a ∈ as) (hp : a.isPunct = false) :
    ∃ t ∈ ts, ∃ rest, Munch [a] rest t := by
  induction h with
  | nil => cases ha
  | @cons A rest t ts hA _ ih =>
    rcases List.mem_append.mp ha with ha | ha
    · refine ⟨t, List.mem_cons_self, rest, ?_⟩
      cases hA with
      | leaf hk => rw [List.mem_singleton.mp ha]; exact .leaf hk
      | group => rw [List.mem_singleton.mp ha]; exact .group
      | marker _ hs =>
        obtain ⟨c, -, pos, stop, rfl⟩ := hs.mem ha
        cases hp
      | single => rw [List.mem_singleton.mp ha] at hp; cases hp
    · obtain ⟨t, ht, hm⟩ := ih ha
      exact ⟨t, List.mem_cons_of_mem _ ht, hm⟩

theorem alone (h : Munched as ts) {a : Atom} (ha : a ∈ as) (hp : a.isPunct = false) :
    ∃ t ∈ ts, t.pos = a.pos ∧ t.stop = a.stop ∧ t.value = a.value := by
  obtain ⟨t, ht, rest, hm⟩ := h.exists_munch ha hp
  refine ⟨t, ht, ?_⟩
  cases hm with
  | leaf => exact ⟨rfl, rfl, rfl⟩
  | group => exact ⟨rfl, rfl, rfl⟩
  | marker _ hs =>
    obtain ⟨c, -, pos, stop, rfl⟩ := hs.mem List.mem_cons_self
    cases hp
  | single => cases hp

/-- Two tokens do not cover the same atom. -/
theorem cover_unique (h : Munched as ts) (ho : InOrder as) {a : Atom} (ha : a ∈ as) {t u : Token}
    (ht : t ∈ ts) (hu : u ∈ ts) (hta : t.Covers a) (hua : u.Covers a) : t = u := by
  by_contra hne
  have hsymm : ts.Pairwise fun t u => t.stop ≤ u.pos ∨ u.stop ≤ t.pos := (h.order ho).imp .inl
  have : Std.Symm fun t u : Token => t.stop ≤ u.pos ∨ u.stop ≤ t.pos := ⟨fun _ _ => Or.symm⟩
  have hapart := hsymm.forall ht hu hne
  have := ho.lt a ha
  rw [Token.Covers] at hta hua
  omega

end Munched

/-! ## Values -/

/-- What touching atoms show together, each its own part of the text. -/
theorem Spell.slice_eq {text spelling : List Char} {as : List Atom} {a z : Atom}
    (h : Spell spelling as) (ho : InOrder as) (hshows : ∀ x ∈ as, x.Shows text)
    (ha : as.head? = some a) (hz : as.getLast? = some z) :
    Text.slice text a.pos z.stop = spelling := by
  have hle : ∀ x ∈ as, x.pos ≤ x.stop := fun x hx => Nat.le_of_lt (ho.lt x hx)
  rw [← (Text.flatMap_slice h.touch hle ha hz).2]
  obtain ⟨hchars, -⟩ := h
  clear ho hle ha hz
  induction hchars with
  | nil => rfl
  | @cons c x spelling as hx _ ih =>
    obtain ⟨pos, stop, rfl⟩ := hx
    rw [List.flatMap_cons, ih fun x hx => hshows x (List.mem_cons_of_mem _ hx)]
    have hs : LeafShows .punct (Char.toString c) (Text.slice text pos stop) (text.drop stop) :=
      hshows _ List.mem_cons_self
    have hc : [c] = Text.slice text pos stop := by
      simpa [Char.toString] using congrArg String.toList hs.1
    exact (congrArg (· ++ spelling) hc).symm

/-- Literals and groups apart, the value of a token is its part of the text. -/
theorem Munch.slice_eq {text : List Char} {as rest : List Atom} {t : Token} (h : Munch as rest t)
    (ho : InOrder as) (hshows : ∀ x ∈ as, x.Shows text) (hk : t.kind ≠ .string)
    (hg : t.isGroup = false) : Text.slice text t.pos t.stop = t.value.toList := by
  cases h with
  | @leaf kind value pos stop _ hp =>
    have hs : LeafShows kind value (Text.slice text pos stop) (text.drop stop) :=
      hshows _ List.mem_cons_self
    show Text.slice text pos stop = value.toList
    cases kind with
    | ident => rw [hs.1, String.toList_ofList]
    | string => exact absurd rfl hk
    | number => rw [hs.1, String.toList_ofList]
    | punct => exact absurd rfl hp
  | @group b =>
    rw [Token.isGroup_of_kind (b := b) rfl] at hg
    cases hg
  | marker hm hs ha hz =>
    show Text.slice text _ _ = (String.ofList _).toList
    rw [String.toList_ofList]
    exact hs.slice_eq ho hshows ha hz
  | @single value pos stop =>
    have hs : LeafShows .punct value (Text.slice text pos stop) (text.drop stop) :=
      hshows _ List.mem_cons_self
    show Text.slice text pos stop = value.toList
    rw [hs.1, String.toList_ofList]

theorem Munched.slice_eq {text : List Char} {as : List Atom} {ts : List Token}
    (h : Munched as ts) (ho : InOrder as) (hshows : ∀ x ∈ as, x.Shows text) {t : Token}
    (ht : t ∈ ts) (hk : t.kind ≠ .string) (hg : t.isGroup = false) :
    Text.slice text t.pos t.stop = t.value.toList := by
  induction h with
  | nil => cases ht
  | cons hA hrest ih =>
    rcases List.mem_cons.mp ht with rfl | ht
    · exact hA.slice_eq ho.left (fun x hx => hshows x (List.mem_append_left _ hx)) hk hg
    · exact ih ho.right (fun x hx => hshows x (List.mem_append_right _ hx)) ht

/-! ## The tokens of a text -/

theorem Scanned.inOrder {text : List Char} {as : List Atom} (h : Scanned text as) :
    InOrder as := by
  obtain ⟨lo, hi, -, order, bounds, -⟩ := h.partition
  exact ⟨order, fun a ha => (bounds a ha).2.1⟩

theorem Scanned.slice_eq {text : List Char} {as : List Atom} (h : Scanned text as) {t : Token}
    (ht : t ∈ classify as) (hk : t.kind ≠ .string) (hg : t.isGroup = false) :
    Text.slice text t.pos t.stop = t.value.toList :=
  (munched_classify as).slice_eq h.inOrder h.shows ht hk hg

/-- Tokens that are read from the atoms of a text leftmost-longest and lose nothing of them. -/
structure Tokenized (text : List Char) (as : List Atom) (ts : List Token) : Prop where
  /-- From left to right the atoms go into the tokens, each token as long as it can be. -/
  munched : Munched as ts
  /-- No token is empty. -/
  lt : ∀ t ∈ ts, t.pos < t.stop
  /-- The tokens stand in order and do not overlap. -/
  order : ts.Pairwise fun t u => t.stop ≤ u.pos
  /-- Each atom lies in one token and in no other. -/
  cover : ∀ a ∈ as, ∃! t, t ∈ ts ∧ t.Covers a
  /-- An atom that is no punctuation is a token with its own span and value. -/
  alone : ∀ a ∈ as, a.isPunct = false →
    ∃ t ∈ ts, t.pos = a.pos ∧ t.stop = a.stop ∧ t.value = a.value
  /-- Literals and groups apart, a token says what stands in the text. -/
  slice : ∀ t ∈ ts, t.kind ≠ .string → t.isGroup = false →
    Text.slice text t.pos t.stop = t.value.toList

/-- The tokens of a text, and those in every group of it, are read leftmost-longest. -/
theorem classify_munches {text : List Char} {as : List Atom} (h : Scanned text as) :
    Tokenized text as (classify as) where
  munched := munched_classify as
  lt t ht := ((munched_classify as).pos_mem h.inOrder ht).1
  order := (munched_classify as).order h.inOrder
  cover a ha := by
    obtain ⟨t, ht, hc⟩ := (munched_classify as).cover h.inOrder ha
    refine ⟨t, ⟨ht, hc⟩, fun u hu => ?_⟩
    exact (munched_classify as).cover_unique h.inOrder ha hu.1 ht hu.2 hc
  alone _ ha hp := (munched_classify as).alone ha hp
  slice _ ht hk hg := h.slice_eq ht hk hg

/-- Two markers that overlap: the one that starts further left is taken, as long as it is. -/
theorem classify_munches_overlap :
    Scanned "<!-->".toList [.leaf .punct "<" 0 1, .leaf .punct "!" 1 2, .leaf .punct "-" 2 3,
        .leaf .punct "-" 3 4, .leaf .punct ">" 4 5]
      ∧ Tokenized "<!-->".toList [.leaf .punct "<" 0 1, .leaf .punct "!" 1 2,
          .leaf .punct "-" 2 3, .leaf .punct "-" 3 4, .leaf .punct ">" 4 5]
        [.flat .commentOpen "<!--" 0 4, .flat .gt ">" 4 5] := by
  have h : Scanned "<!-->".toList [.leaf .punct "<" 0 1, .leaf .punct "!" 1 2,
      .leaf .punct "-" 2 3, .leaf .punct "-" 3 4, .leaf .punct ">" 4 5] :=
    .whole (show scan "<!-->".toList 0 = .ok _ by cbv)
  have ht := classify_munches h
  rw [show classify _ = [.flat .commentOpen "<!--" 0 4, .flat .gt ">" 4 5] by cbv] at ht
  exact ⟨h, ht⟩

end MarkupTemplate
