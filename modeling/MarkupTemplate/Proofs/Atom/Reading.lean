import MarkupTemplate.Proofs.Text.Boundary

/-!
# Successful scans as derivations

A scan that succeeds is a derivation, one step for each blank, leaf and group. Everything that
holds of the atoms of a text is proved by induction on it.

* `Scan.Reads`: the atoms that stand between two places.
* `Scan.sequence_eq_ok_iff`: a sequence is read exactly along these derivations.
* `scan_from_eq_ok_iff`, `scan_eq_ok_iff`: the atoms from an offset on, and of a whole text.
-/
namespace MarkupTemplate

namespace Place

theorem ext_seen {p q : Place} (hs : p.seen = q.seen) (hr : p.rest = q.rest) : p = q := by
  obtain ⟨ps, pr, pp, hp⟩ := p
  obtain ⟨qs, qr, qp, hq⟩ := q
  simp only at hs hr
  subst hs hr
  simp [hp, hq]

/-- The place at the start of a text. -/
def start (text : List Char) : Place := ofOffset text 0

@[simp] theorem start_seen (text : List Char) : (start text).seen = [] := by simp [start, ofOffset]

@[simp] theorem start_rest (text : List Char) : (start text).rest = text := by
  simp [start, ofOffset]

@[simp] theorem start_pos (text : List Char) : (start text).pos = 0 := by simp [start, ofOffset]

theorem advance_seen {p : Place} {u y : List Char} (h : p.rest = u ++ y) :
    (p.advance u.length).seen = u.reverse ++ p.seen := by
  simp [advance, h]

theorem advance_rest {p : Place} {u y : List Char} (h : p.rest = u ++ y) :
    (p.advance u.length).rest = y := by
  simp [advance, h]

theorem advance_pos {p : Place} {u y : List Char} (h : p.rest = u ++ y) :
    (p.advance u.length).pos = p.pos + u.length := by
  simp [advance, h, Nat.add_comm]

theorem advance_one_seen {p : Place} {c : Char} {y : List Char} (h : p.rest = c :: y) :
    (p.advance 1).seen = c :: p.seen := by
  simp [advance, h]

theorem advance_one_rest {p : Place} {c : Char} {y : List Char} (h : p.rest = c :: y) :
    (p.advance 1).rest = y := by
  simp [advance, h]

theorem advance_one_pos {p : Place} {c : Char} {y : List Char} (h : p.rest = c :: y) :
    (p.advance 1).pos = p.pos + 1 := by
  simp [advance, h, Nat.add_comm]

@[simp] theorem advance_zero (p : Place) : p.advance 0 = p := ext_seen (by simp [advance])
  (by simp [advance])

theorem advance_advance (p : Place) (m n : Nat) : (p.advance m).advance n = p.advance (m + n) := by
  refine ext_seen ?_ ?_
  · simp only [advance, ← List.append_assoc, ← List.reverse_append, ← List.take_add]
  · simp [advance, List.drop_drop]

theorem upTo_advance {p : Place} {u y : List Char} (h : p.rest = u ++ y) :
    p.upTo (p.advance u.length) = u := by
  rw [upTo, advance_pos h, h]
  simp

theorem skipBlanks_of_blank {p : Place} {c : Char} {more : List Char} (hr : p.rest = c :: more)
    (hb : Text.isBlank c = true) : p.skipBlanks = (p.advance 1).skipBlanks := by
  have h1 : (p.advance 1).rest = more := by simp [advance, hr]
  rw [skipBlanks, skipBlanks, h1, advance_advance, hr, List.takeWhile_cons_of_pos hb,
    List.length_cons, Nat.add_comm]

theorem skipBlanks_of_not_blank {p : Place} (h : ∀ c ∈ p.rest.head?, Text.isBlank c = false) :
    p.skipBlanks = p := by
  cases hr : p.rest with
  | nil => simp [skipBlanks, hr]
  | cons c more =>
    have hc : ¬ Text.isBlank c = true := by simp [h c (by simp [hr])]
    simp [skipBlanks, hr, List.takeWhile_cons_of_neg hc]

theorem skipBlanks_head (p : Place) : ∀ c ∈ p.skipBlanks.rest.head?, Text.isBlank c = false := by
  intro c hc
  have hd : p.skipBlanks.rest = p.rest.dropWhile Text.isBlank :=
    advance_rest p.rest.takeWhile_append_dropWhile.symm
  rw [hd] at hc
  cases hw : p.rest.dropWhile Text.isBlank with
  | nil => simp [hw] at hc
  | cons d more =>
    have := List.head_dropWhile_not Text.isBlank (l := p.rest) (by simp [hw])
    simp only [hw, List.head?_cons, Option.mem_def, Option.some.injEq, List.head_cons] at hc this
    rw [← hc, this]

end Place

namespace Bracket

theorem opener_of_openedBy {c : Char} {b : Bracket} (h : openedBy? c = some b) : c = b.opener := by
  unfold openedBy? at h
  split at h
  · simp_all
  · split at h
    · simp_all
    · split at h <;> simp_all

theorem closer_of_closedBy {c : Char} {b : Bracket} (h : closedBy? c = some b) : c = b.closer := by
  unfold closedBy? at h
  split at h
  · simp_all
  · split at h
    · simp_all
    · split at h <;> simp_all

@[simp] theorem closedBy?_opener (b : Bracket) : closedBy? b.opener = none := by
  cases b <;> decide

theorem isBoundary_opener (b : Bracket) : Text.isBoundary b.opener = true := by
  cases b <;> decide

theorem isBoundary_closer (b : Bracket) : Text.isBoundary b.closer = true := by
  cases b <;> decide

theorem isBlank_opener (b : Bracket) : Text.isBlank b.opener = false := by
  cases b <;> decide

theorem isBlank_closer (b : Bracket) : Text.isBlank b.closer = false := by
  cases b <;> decide

end Bracket

namespace Scan

/-- The text that is left ends the atoms of a group or of the whole text. -/
def Stops (rest : List Char) : Prop := ∀ c ∈ rest.head?, (Bracket.closedBy? c).isSome = true

/-- The text that is left ends what the given bracket opened, or the whole text. -/
def Ends (opened : Option (Bracket × Nat)) (rest : List Char) : Prop :=
  match opened with
  | none => rest = []
  | some (b, _) => rest.head? = some b.closer

/-- The atoms between two places, of which the later is at the end of the text or before a closing
bracket. -/
inductive Reads : Place → List Atom → Place → Prop where
  | stop {p : Place} (h : Stops p.rest) : Reads p [] p
  | blank {p : Place} {c : Char} {more : List Char} {as : List Atom} {q : Place}
      (hr : p.rest = c :: more) (hb : Text.isBlank c = true) (h : Reads (p.advance 1) as q) :
      Reads p as q
  | leaf {p : Place} {c : Char} {more : List Char} {a : Atom} {q : Place} {as : List Atom}
      {r : Place} (hr : p.rest = c :: more) (hb : Text.isBlank c = false)
      (hc : Bracket.closedBy? c = none) (ho : Bracket.openedBy? c = none)
      (hl : readLeaf p c more = .ok (a, q)) (h : Reads q as r) : Reads p (a :: as) r
  | group {p : Place} {b : Bracket} {more : List Char} {children : List Atom} {q : Place}
      {rest : List Char} {as : List Atom} {r : Place} (hr : p.rest = b.opener :: more)
      (hi : Reads (p.advance 1) children q) (hq : q.rest = b.closer :: rest)
      (h : Reads (q.advance 1) as r) :
      Reads p (.group b p.pos (q.advance 1).pos (String.ofList ((p.advance 1).upTo q)) children
        :: as) r

theorem reads_of_skipBlanks {p : Place} {as : List Atom} {q : Place}
    (h : Reads p.skipBlanks as q) : Reads p as q := by
  induction hn : p.rest.length generalizing p with
  | zero =>
    rwa [Place.skipBlanks_of_not_blank (by simp [List.length_eq_zero_iff.mp hn])] at h
  | succ n ih =>
    obtain ⟨c, more, hr⟩ := List.exists_cons_of_length_eq_add_one hn
    cases hb : Text.isBlank c with
    | true =>
      rw [Place.skipBlanks_of_blank hr hb] at h
      exact .blank hr hb (ih h (by rw [Place.length_advance, hn]; rfl))
    | false => rwa [Place.skipBlanks_of_not_blank (by simp [hr, hb])] at h

theorem stops_skipBlanks {p : Place} (h : Stops p.rest) : p.skipBlanks = p := by
  refine Place.skipBlanks_of_not_blank fun c hc => ?_
  obtain ⟨b, hb⟩ := Option.isSome_iff_exists.mp (h c hc)
  rw [Bracket.closer_of_closedBy hb]
  exact Bracket.isBlank_closer b

/-- What a run of two steps that succeeds consists of. -/
theorem bind_ok {ε α β : Type} {x : Except ε α} {f : α → Except ε β} {b : β}
    (h : x >>= f = .ok b) : ∃ a, x = .ok a ∧ f a = .ok b := by
  cases x with
  | error e => cases h
  | ok a => exact ⟨a, rfl, h⟩

/-- How a run of two steps fails. -/
theorem bind_error {ε α β : Type} {x : Except ε α} {f : α → Except ε β} {e : ε}
    (h : x >>= f = .error e) : x = .error e ∨ ∃ a, x = .ok a ∧ f a = .error e := by
  cases x with
  | error e' => exact .inl (congrArg Except.error (Except.error.inj h))
  | ok a => exact .inr ⟨a, rfl, h⟩

theorem moved_map {p : Place} {r : Except ScanFault (Atom × Place)}
    {h : ∀ a q, r = .ok (a, q) → q.rest.length < p.rest.length} :
    (moved p r h).map (fun r => (r.1, r.2.1)) = r := by
  unfold moved
  split <;> rfl

/-- A reading of a sequence without what it knows about where it stopped. -/
def sequence (opened : Option (Bracket × Nat)) (p : Place) :
    Except ScanFault (List Atom × Place) :=
  (readSequence opened p).map fun r => (r.1, r.2.1)

/-- One step of the reading of a sequence. -/
theorem sequence_eq (opened : Option (Bracket × Nat)) (p : Place) :
    sequence opened p = match p.skipBlanks.rest with
      | [] =>
        match opened with
        | none => .ok ([], p.skipBlanks)
        | some (b, offset) => .error ⟨.unterminatedGroup b.opener, offset⟩
      | c :: more =>
        if (Bracket.closedBy? c).isSome then
          if opened.map (·.1) = Bracket.closedBy? c then .ok ([], p.skipBlanks)
          else .error ⟨.unexpectedCloser c, p.skipBlanks.pos⟩
        else match Bracket.openedBy? c with
        | some b => do
          let (children, q) ← sequence (some (b, p.skipBlanks.pos)) (p.skipBlanks.advance 1)
          let (atoms, r) ← sequence opened (q.advance 1)
          return (.group b p.skipBlanks.pos (q.advance 1).pos
            (String.ofList ((p.skipBlanks.advance 1).upTo q)) children :: atoms, r)
        | none => do
          let (a, q) ← readLeaf p.skipBlanks c more
          let (atoms, r) ← sequence opened q
          return (a :: atoms, r) := by
  rw [sequence]
  fun_cases readSequence opened p with
  | case1 _ _ hr => rw [hr]; rfl
  | case2 _ _ hr b n => rw [hr]; rfl
  | case3 _ _ _ _ _ hr hne hc ho =>
    rw [hr]
    simp only [hc, ho, if_true]; rfl
  | case4 _ _ _ _ _ hr hne hc ho =>
    rw [hr]
    simp only [hc, ho, if_true, if_false]; rfl
  | case5 _ _ _ c more hr hne hc b ho inside hi =>
    rw [hr]
    simp only [hc, ho, Bool.false_eq_true, if_false, sequence]
    cases h1 : readSequence (some (b, p.skipBlanks.pos)) inside with
    | error e => rfl
    | ok r =>
      obtain ⟨children, q, hq⟩ := r
      simp only [bind, Except.bind, Except.map]
      cases h2 : readSequence opened (q.advance 1) with
      | error e => rfl
      | ok r => rfl
  | case6 _ _ _ c more hr hne hc ho =>
    conv => rhs; rw [show p.skipBlanks.rest = c :: more from hr]
    simp only [hc, ho, Bool.false_eq_true, if_false]
    conv => rhs; rw [← moved_map (h := fun _ _ h => length_readLeaf_lt hr h)]
    cases moved p.skipBlanks (readLeaf p.skipBlanks c more)
      fun _ _ h => length_readLeaf_lt hr h with
    | error e => rfl
    | ok r =>
      obtain ⟨a, q, hq⟩ := r
      simp only [bind, Except.bind, Except.map, sequence]
      cases readSequence opened q with
      | error e => rfl
      | ok r => rfl

theorem reads_of_readSequence {opened : Option (Bracket × Nat)} {p : Place} {as : List Atom}
    {q : { q : Place // q.rest.length ≤ p.rest.length }}
    (h : readSequence opened p = .ok (as, q)) : Reads p as q.1 ∧ Ends opened q.1.rest := by
  suffices hs : Reads p.skipBlanks as q.1 ∧ Ends opened q.1.rest from
    ⟨reads_of_skipBlanks hs.1, hs.2⟩
  fun_induction readSequence opened p generalizing as with
  | case1 =>
    rename_i start p hp hr
    simp only [Except.ok.injEq, Prod.mk.injEq] at h
    rw [← h.1, ← h.2]
    exact ⟨.stop (by simp [p, Stops, hr]), hr⟩
  | case2 => cases h
  | case3 =>
    rename_i opened start p hp c more hr hne hc ho
    simp only [Except.ok.injEq, Prod.mk.injEq] at h
    rw [← h.1, ← h.2]
    obtain ⟨b, hb⟩ := Option.isSome_iff_exists.mp hc
    obtain ⟨⟨b', n⟩, rfl, rfl⟩ := Option.map_eq_some_iff.mp (ho.trans hb)
    exact ⟨.stop (by simp [p, Stops, hr, hc]), by simp [Ends, hr, Bracket.closer_of_closedBy hb]⟩
  | case4 => cases h
  | case5 =>
    rename_i opened start p hp c more hr hne hc b ho inside hi ih2 ih1
    obtain ⟨⟨children, q₁, hq₁⟩, h₁, h⟩ := bind_ok h
    obtain ⟨⟨atoms, r, hr'⟩, h₂, h⟩ := bind_ok h
    simp only [pure, Except.pure, Except.ok.injEq, Prod.mk.injEq] at h
    rw [← h.1, ← h.2]
    obtain ⟨hi, he⟩ := ih2 h₁
    obtain ⟨hs, he'⟩ := ih1 q₁ hq₁ h₂
    obtain ⟨rest, hrest⟩ := List.head?_eq_some_iff.mp he
    exact ⟨.group (Bracket.opener_of_openedBy ho ▸ hr) (reads_of_skipBlanks hi) hrest
      (reads_of_skipBlanks hs), he'⟩
  | case6 =>
    rename_i opened start p hp c more hr hne hc ho ih1
    obtain ⟨⟨atom, q₁, hq₁⟩, h₁, h⟩ := bind_ok h
    obtain ⟨⟨atoms, r, hr'⟩, h₂, h⟩ := bind_ok h
    simp only [pure, Except.pure, Except.ok.injEq, Prod.mk.injEq] at h
    rw [← h.1, ← h.2]
    obtain ⟨hs, he⟩ := ih1 q₁ hq₁ h₂
    have hl : readLeaf p c more = .ok (atom, q₁) := by
      have := moved_map (h := fun _ _ h => length_readLeaf_lt hr h)
      rw [h₁] at this
      exact this.symm
    exact ⟨.leaf hr (start.skipBlanks_head c (by simp [p, hr])) (by simpa using hc) ho hl
      (reads_of_skipBlanks hs), he⟩

theorem sequence_of_reads {p : Place} {as : List Atom} {q : Place} (h : Reads p as q) :
    ∀ (opened : Option (Bracket × Nat)), Ends opened q.rest → sequence opened p = .ok (as, q) := by
  induction h with
  | @stop p hs =>
    intro opened he
    rw [sequence_eq, stops_skipBlanks hs]
    cases hr : p.rest with
    | nil =>
      cases opened with
      | none => rfl
      | some o => simp [Ends, hr] at he
    | cons c more =>
      have hc := hs c (by simp [hr])
      cases opened with
      | none => simp [Ends, hr] at he
      | some o =>
        simp only [Ends, hr, List.head?_cons, Option.some.injEq] at he
        simp [he, Bracket.closedBy?_closer]
  | @blank p c more as q hr hb _ ih =>
    intro opened he
    rw [sequence_eq, Place.skipBlanks_of_blank hr hb, ← sequence_eq]
    exact ih _ he
  | @leaf p c more a q as r hr hb hc ho hl _ ih =>
    intro opened he
    rw [sequence_eq, Place.skipBlanks_of_not_blank (by simp [hr, hb]), hr]
    simp only [hc, ho, Option.isSome_none, Bool.false_eq_true, if_false, hl]
    simp only [bind, Except.bind, ih _ he]
    rfl
  | @group p b more children q rest as r hr _ hq _ ihi ih =>
    intro opened he
    have hb := Bracket.isBlank_opener b
    rw [sequence_eq, Place.skipBlanks_of_not_blank (by simp [hr, hb]), hr]
    simp only [Bracket.closedBy?_opener, Bracket.openedBy?_opener, Option.isSome_none,
      Bool.false_eq_true, if_false]
    rw [ihi (some (b, p.pos)) (by simp [Ends, hq])]
    simp only [bind, Except.bind, ih _ he]
    rfl

/-- A sequence is read exactly along a derivation that ends where the sequence may end. -/
theorem sequence_eq_ok_iff {opened : Option (Bracket × Nat)} {p : Place} {as : List Atom}
    {q : Place} : sequence opened p = .ok (as, q) ↔ Reads p as q ∧ Ends opened q.rest := by
  refine ⟨fun h => ?_, fun h => sequence_of_reads h.1 _ h.2⟩
  unfold sequence at h
  cases hr : readSequence opened p with
  | error e => rw [hr] at h; cases h
  | ok r =>
    rw [hr] at h
    obtain ⟨rfl, rfl⟩ := Prod.mk.inj (Except.ok.inj h)
    exact reads_of_readSequence hr

end Scan

open Scan

theorem scan_eq_sequence (text : List Char) (offset : Nat) :
    scan text offset = (sequence none (Place.ofOffset text offset)).map (·.1) := by
  unfold scan Scan.sequence
  cases readSequence none (Place.ofOffset text offset) <;> rfl

/-- The atoms from an offset on are those of a derivation that ends with the text. -/
theorem scan_from_eq_ok_iff {text : List Char} {offset : Nat} {as : List Atom} :
    scan text offset = .ok as ↔ ∃ q, Reads (Place.ofOffset text offset) as q ∧ q.rest = [] := by
  rw [scan_eq_sequence]
  constructor
  · intro h
    cases hr : sequence none (Place.ofOffset text offset) with
    | error e => rw [hr] at h; cases h
    | ok r =>
      rw [hr] at h
      obtain rfl := Except.ok.inj h
      obtain ⟨h₁, h₂⟩ := sequence_eq_ok_iff.mp hr
      exact ⟨_, h₁, h₂⟩
  · rintro ⟨q, h₁, h₂⟩
    rw [sequence_of_reads h₁ none h₂]
    rfl

theorem scan_eq_ok_iff {text : List Char} {as : List Atom} :
    scan text 0 = .ok as ↔ ∃ q, Reads (Place.start text) as q ∧ q.rest = [] :=
  scan_from_eq_ok_iff

end MarkupTemplate
