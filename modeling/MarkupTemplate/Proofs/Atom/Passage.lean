import MarkupTemplate.Proofs.Atom.Leaf

/-!
# Passages over atoms

A passage leads from one place of a text to another over the atoms between them. Unlike a reading
it may end anywhere, so it can be cut at every atom and taken up again.

* `Scan.Passes`: the atoms between two places.
* `Scan.reads_iff`: a reading is a passage that ends where atoms stop.
* `Scan.Passes.cut`: the part of a passage over some of its atoms, without the blanks around it.
-/
namespace MarkupTemplate

/-- What lies before the place after a group. -/
theorem Place.seen_past_group {p : Place} {c d : Char} {s y : List Char}
    (h : p.rest = c :: (s ++ d :: y)) : (((p.advance 1).advance s.length).advance 1).seen
      = d :: (s.reverse ++ c :: p.seen) := by
  have h₁ := advance_one_rest h
  rw [advance_one_seen (advance_rest h₁), advance_seen h₁, advance_one_seen h]

namespace Scan

/-- The atoms between two places of a text, one step for each blank, leaf and group. -/
inductive Passes : Place → List Atom → Place → Prop where
  | nil (p : Place) : Passes p [] p
  | blank {p : Place} {c : Char} {more : List Char} {as : List Atom} {q : Place}
      (hr : p.rest = c :: more) (hb : Text.isBlank c = true) (h : Passes (p.advance 1) as q) :
      Passes p as q
  | leaf {p : Place} {c : Char} {more : List Char} {a : Atom} {q : Place} {as : List Atom}
      {r : Place} (hr : p.rest = c :: more) (hb : Text.isBlank c = false)
      (hc : Bracket.closedBy? c = none) (ho : Bracket.openedBy? c = none)
      (hl : readLeaf p c more = .ok (a, q)) (h : Passes q as r) : Passes p (a :: as) r
  | group {p : Place} {b : Bracket} {more : List Char} {children : List Atom} {q : Place}
      {rest : List Char} {as : List Atom} {r : Place} (hr : p.rest = b.opener :: more)
      (hi : Passes (p.advance 1) children q) (hq : q.rest = b.closer :: rest)
      (h : Passes (q.advance 1) as r) :
      Passes p (.group b p.pos (q.advance 1).pos (String.ofList ((p.advance 1).upTo q)) children
        :: as) r

/-! ## Readings -/

theorem Reads.passes {p q : Place} {as : List Atom} (h : Reads p as q) :
    Passes p as q ∧ Stops q.rest := by
  induction h with
  | stop hs => exact ⟨.nil _, hs⟩
  | blank hr hb _ ih => exact ⟨.blank hr hb ih.1, ih.2⟩
  | leaf hr hb hc ho hl _ ih => exact ⟨.leaf hr hb hc ho hl ih.1, ih.2⟩
  | group hr _ hq _ ihi ih => exact ⟨.group hr ihi.1 hq ih.1, ih.2⟩

theorem stops_closer {b : Bracket} {rest : List Char} : Stops (b.closer :: rest) := by
  simp [Stops, Bracket.closedBy?_closer]

theorem Passes.reads {p q : Place} {as : List Atom} (h : Passes p as q) (hs : Stops q.rest) :
    Reads p as q := by
  induction h with
  | nil => exact .stop hs
  | blank hr hb _ ih => exact .blank hr hb (ih hs)
  | leaf hr hb hc ho hl _ ih => exact .leaf hr hb hc ho hl (ih hs)
  | group hr _ hq _ ihi ih => exact .group hr (ihi (hq ▸ stops_closer)) hq (ih hs)

/-- A reading is a passage that ends at the end of the text or before a closing bracket. -/
theorem reads_iff {p q : Place} {as : List Atom} :
    Reads p as q ↔ Passes p as q ∧ Stops q.rest :=
  ⟨Reads.passes, fun h => h.1.reads h.2⟩

/-! ## Spans -/

/-- What a passage leads over is a piece of the text. -/
theorem Passes.span {p q : Place} {as : List Atom} (h : Passes p as q) :
    ∃ s, p.rest = s ++ q.rest ∧ q = p.advance s.length := by
  induction h with
  | nil => exact ⟨[], rfl, by simp⟩
  | @blank p c more as q hr _ _ ih =>
    obtain ⟨s, hs, hq⟩ := ih
    rw [Place.advance_one_rest hr] at hs
    refine ⟨c :: s, by rw [hr, hs]; rfl, ?_⟩
    rw [hq, Place.advance_advance, List.length_cons, Nat.add_comm]
  | @leaf p c more a q as r hr _ _ _ hl _ ih =>
    obtain ⟨s, hs, hq⟩ := ih
    obtain ⟨-, w, -, hmore, hq₁, -, -⟩ := readLeaf_move hr hl
    refine ⟨c :: w ++ s, by rw [hr, hmore, hs]; simp, ?_⟩
    rw [hq, hq₁, Place.advance_advance, List.length_append, List.length_cons]
  | @group p b more children q rest as r hr _ hq _ ihi ih =>
    obtain ⟨s₁, hs₁, hq₁⟩ := ihi
    obtain ⟨s₂, hs₂, hr₂⟩ := ih
    rw [Place.advance_one_rest hr, hq] at hs₁
    rw [Place.advance_one_rest hq] at hs₂
    refine ⟨b.opener :: s₁ ++ b.closer :: s₂, by rw [hr, hs₁, hs₂]; simp, ?_⟩
    rw [hr₂, hq₁, Place.advance_advance, Place.advance_advance, Place.advance_advance]
    simp only [List.length_append, List.length_cons]
    congr 1; omega

theorem Passes.pos_le {p q : Place} {as : List Atom} (h : Passes p as q) : p.pos ≤ q.pos := by
  obtain ⟨s, hs, rfl⟩ := h.span
  rw [Place.advance_pos hs]
  omega

theorem Passes.text_eq {p q : Place} {as : List Atom} (h : Passes p as q) : q.text = p.text := by
  obtain ⟨s, -, rfl⟩ := h.span
  exact p.text_advance s.length

/-- A group stands between its brackets. -/
theorem Passes.enclosed {p q : Place} {b : Bracket} {more rest : List Char}
    {children : List Atom} (h : Passes (p.advance 1) children q)
    (hr : p.rest = b.opener :: more) (hq : q.rest = b.closer :: rest) :
    ∃ s, p.rest = b.opener :: (s ++ [b.closer]) ++ rest ∧ q = (p.advance 1).advance s.length
      ∧ (p.advance 1).upTo q = s := by
  obtain ⟨s, hs, rfl⟩ := h.span
  refine ⟨s, ?_, rfl, Place.upTo_advance hs⟩
  rw [Place.advance_one_rest hr, hq] at hs
  rw [hr, hs]
  simp

/-! ## Parts of passages -/

theorem Passes.append {p q r : Place} {as bs : List Atom} (h : Passes p as q)
    (hs : Passes q bs r) : Passes p (as ++ bs) r := by
  induction h with
  | nil => exact hs
  | blank hr hb _ ih => exact .blank hr hb (ih hs)
  | leaf hr hb hc ho hl _ ih => exact .leaf hr hb hc ho hl (ih hs)
  | group hr hi hq _ _ ih => exact .group hr hi hq (ih hs)

/-- A passage can be interrupted between any two of its atoms. -/
theorem Passes.split {p r : Place} {as bs : List Atom} (h : Passes p (as ++ bs) r) :
    ∃ q, Passes p as q ∧ Passes q bs r := by
  generalize hcs : as ++ bs = cs at h
  induction h generalizing as with
  | nil p =>
    obtain ⟨rfl, rfl⟩ := List.append_eq_nil_iff.mp hcs
    exact ⟨p, .nil p, .nil p⟩
  | @blank p _ _ _ _ hr hb _ ih =>
    obtain ⟨q, hq, hr'⟩ := ih hcs
    exact ⟨q, .blank hr hb hq, hr'⟩
  | @leaf p _ _ _ _ _ _ hr hb hc ho hl h ih =>
    rcases List.append_eq_cons_iff.mp hcs with ⟨rfl, rfl⟩ | ⟨as, rfl, rfl⟩
    · exact ⟨p, .nil p, .leaf hr hb hc ho hl h⟩
    · obtain ⟨q, hq, hr'⟩ := ih rfl
      exact ⟨q, .leaf hr hb hc ho hl hq, hr'⟩
  | @group p _ _ _ _ _ _ _ hr hi hq h _ ih =>
    rcases List.append_eq_cons_iff.mp hcs with ⟨rfl, rfl⟩ | ⟨as, rfl, rfl⟩
    · exact ⟨p, .nil p, .group hr hi hq h⟩
    · obtain ⟨q', hq', hr'⟩ := ih rfl
      exact ⟨q', .group hr hi hq hq', hr'⟩

/-- A passage over an atom starts the atom behind blanks, and has passed it where it stops. -/
theorem Passes.step {p r : Place} {a : Atom} {as : List Atom} (h : Passes p (a :: as) r) :
    ∃ p' q, Passes p [] p' ∧ Passes p' [a] q ∧ Passes q as r ∧ p'.pos = a.pos
      ∧ q.pos = a.stop := by
  generalize hbs : a :: as = bs at h
  induction h with
  | nil => cases hbs
  | blank hr hb _ ih =>
    obtain ⟨p', q, hp, ha, hq, hpos, hstop⟩ := ih hbs
    exact ⟨p', q, .blank hr hb hp, ha, hq, hpos, hstop⟩
  | @leaf p c more b q bs r hr hb hc ho hl h =>
    obtain ⟨rfl, rfl⟩ := List.cons.inj hbs
    obtain ⟨kind, w, value, hmore, hq, rfl, -⟩ := readLeaf_move hr hl
    have hpos : q.pos = p.pos + (w.length + 1) := by
      rw [hq]
      exact Place.advance_pos (u := c :: w) (by rw [hr, hmore]; rfl)
    exact ⟨p, q, .nil p, .leaf hr hb hc ho hl (.nil q), h, rfl, hpos⟩
  | @group p b more children q rest bs r hr hi hq h =>
    obtain ⟨rfl, rfl⟩ := List.cons.inj hbs
    exact ⟨p, q.advance 1, .nil p, .group hr hi hq (.nil _), h, rfl, rfl⟩

/-- A passage leads over its atoms from the start of the first to the end of the last; before and
behind them are only blanks. -/
theorem Passes.cut {p r : Place} {as : List Atom} (h : Passes p as r) (hne : as ≠ []) :
    ∃ p' r', Passes p [] p' ∧ Passes p' as r' ∧ Passes r' [] r ∧ p'.pos = (as.head hne).pos
      ∧ r'.pos = (as.getLast hne).stop := by
  obtain ⟨init, z, rfl⟩ := List.eq_nil_or_concat as |>.resolve_left hne
  rw [List.concat_eq_append] at h
  obtain ⟨q, hq, hz⟩ := h.split
  obtain ⟨z', r', hz', hlast, hr', -, hstop⟩ := hz.step
  have hall : Passes p (init ++ [z]) r' := hq.append (Passes.append hz' hlast)
  obtain ⟨a, as, has⟩ := List.exists_cons_of_ne_nil hne
  rw [List.concat_eq_append] at has
  rw [has] at hall
  obtain ⟨p', q', hp', ha, hq', hpos, -⟩ := hall.step
  simp only [List.concat_eq_append, has]
  refine ⟨p', r', hp', Passes.append ha hq', hr', hpos, ?_⟩
  rw [hstop]
  simp [← has]

end Scan

open Scan in
/-- The atoms from an offset on are those of a passage to the end of the text. -/
theorem scan_from_eq_ok_iff_passes {text : List Char} {offset : Nat} {as : List Atom} :
    scan text offset = .ok as
      ↔ ∃ q, Passes (Place.ofOffset text offset) as q ∧ q.rest = [] := by
  rw [scan_from_eq_ok_iff]
  refine exists_congr fun q => and_congr_left fun hq => ?_
  rw [reads_iff, hq]
  simp [Stops]

end MarkupTemplate
