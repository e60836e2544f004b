import MarkupTemplate.Proofs.Atom.Passage

/-!
# Atoms wherever they stand

The atoms of a piece of text do not depend on the text around it, as long as no literal of it is
marked by what stands before it and a boundary stands at its end: in another text the same atoms are
read, with their positions shifted.

* `Atom.shift`: an atom, so many characters further on.
* `Literal.Detached`: a text whose literals are not marked by what stands before it.
* `Scan.Rereads`: a piece of text is read again at other places, as the same atoms.
* `Scan.Passes.move`: every piece that is passed is such a piece.
* `Scan.Passes.spans_of_occurs`: where an atom stands that is passed at any depth.
* `scan_append`: a text cut at a seam has the atoms of its two parts.
-/
namespace MarkupTemplate

namespace Atom

mutual

/-- The atom `n` characters further on. -/
def shift (n : Nat) : Atom → Atom
  | leaf kind value pos stop => leaf kind value (pos + n) (stop + n)
  | group b pos stop inner children =>
    group b (pos + n) (stop + n) inner (shiftAll n children)

/-- All atoms `n` characters further on. -/
def shiftAll (n : Nat) : List Atom → List Atom
  | [] => []
  | a :: as => shift n a :: shiftAll n as

end

theorem shiftAll_eq_map (n : Nat) (as : List Atom) : shiftAll n as = as.map (shift n) := by
  induction as with
  | nil => rfl
  | cons a as ih => rw [shiftAll, ih, List.map_cons]

@[simp] theorem shift_leaf (n : Nat) (kind : LeafKind) (value : String) (pos stop : Nat) :
    (leaf kind value pos stop).shift n = leaf kind value (pos + n) (stop + n) := rfl

@[simp] theorem shift_group (n : Nat) (b : Bracket) (pos stop : Nat) (inner : String)
    (children : List Atom) : (group b pos stop inner children).shift n
      = group b (pos + n) (stop + n) inner (children.map (shift n)) := by
  rw [shift, shiftAll_eq_map]

mutual

@[simp] theorem shift_zero : (a : Atom) → a.shift 0 = a
  | leaf _ _ _ _ => rfl
  | group _ _ _ _ children => by rw [shift, shiftAll_zero children]; rfl

theorem shiftAll_zero : (as : List Atom) → shiftAll 0 as = as
  | [] => rfl
  | a :: as => by rw [shiftAll, shift_zero a, shiftAll_zero as]

end

@[simp] theorem map_shift_zero (as : List Atom) : as.map (shift 0) = as := by
  rw [← shiftAll_eq_map, shiftAll_zero]

end Atom

namespace Atom

/-- The atom and all that it contains lie between two offsets. -/
inductive Within (lo hi : Nat) : Atom → Prop where
  | leaf {kind : LeafKind} {value : String} {pos stop : Nat} (hp : lo ≤ pos) (hl : pos ≤ stop)
      (hs : stop ≤ hi) : Within lo hi (leaf kind value pos stop)
  | group {b : Bracket} {pos stop : Nat} {inner : String} {children : List Atom} (hp : lo ≤ pos)
      (hl : pos ≤ stop) (hs : stop ≤ hi) (hc : ∀ a ∈ children, Within lo hi a) :
      Within lo hi (group b pos stop inner children)

theorem Within.stop_le {lo hi : Nat} {a : Atom} (h : a.Within lo hi) : a.stop ≤ hi := by
  cases h with
  | leaf _ _ hs => exact hs
  | group _ _ hs _ => exact hs

@[simp] theorem pos_shift (n : Nat) (a : Atom) : (a.shift n).pos = a.pos + n := by
  cases a <;> rfl

/-- An atom stands among the given ones or, at any depth, inside one of them. -/
inductive Occurs (a : Atom) : List Atom → Prop where
  | here {as : List Atom} (h : a ∈ as) : Occurs a as
  | inside {as : List Atom} {b : Bracket} {pos stop : Nat} {inner : String}
      {children : List Atom} (h : group b pos stop inner children ∈ as) (ho : Occurs a children) :
      Occurs a as

end Atom

namespace Literal

/-- No literal of the text `w` is marked raw by what stands before the text. -/
def Detached (σ w : List Char) : Prop :=
  ∀ u c s, w = u ++ c :: s → c = '\x27' ∨ c = '"' → isRaw (u.reverse ++ σ) = isRaw u.reverse

theorem Detached.left {σ u w : List Char} (h : Detached σ (u ++ w)) : Detached σ u :=
  fun v c s hv hc => h v c (s ++ w) (by rw [hv]; simp) hc

/-- A literal behind a seam is marked raw by what stands before it on its own side. -/
theorem detached_of_seam {σ w : List Char} (h : Text.Seam σ.reverse w) : Detached σ w := by
  rintro u c s rfl hc
  have hcb : Text.isBoundary c = false := by rcases hc with rfl | rfl <;> decide
  refine isRaw_append ?_
  cases σ with
  | nil => exact .inl (by simp)
  | cons x σ =>
    have hx : ∀ y ∈ (u ++ c :: s).head?, Text.isBoundary x = true ∨ Text.isBoundary y = true :=
      h x (by simp)
    cases u with
    | nil =>
      rcases hx c (by simp) with hb | hb
      · left; simpa using Text.isWordPart_of_isBoundary hb
      · rw [hb] at hcb; cases hcb
    | cons d u =>
      rcases hx d (by simp) with hb | hb
      · left; simpa using Text.isWordPart_of_isBoundary hb
      · right; exact ⟨d, by simp, Text.isWordPart_of_isBoundary hb⟩

theorem detached_nil (w : List Char) : Detached [] w := detached_of_seam (.nil_left w)

end Literal

namespace Scan

open Text (isBoundary Seam)
open Literal (isRaw Follows Detached)

/-- The piece of text from `p` to `q` is read again at another place, as the same atoms: what lies
before it ends in `σ` at the first place and in `τ` at the other one. -/
def Rereads (σ τ : List Char) (p q : Place) (as : List Atom) : Prop :=
  ∀ {v s y : List Char} {t : Place}, p.seen = v ++ σ → t.seen = v ++ τ →
    p.rest = s ++ q.rest → t.rest = s ++ y → Detached σ (v.reverse ++ s) →
    Detached τ (v.reverse ++ s) → Seam (v.reverse ++ s) y →
    ∃ as' : List Atom, as'.map (Atom.shift σ.length) = as.map (Atom.shift τ.length)
      ∧ Passes t as' (t.advance s.length)

section Rereads

variable {σ τ : List Char} {p q r : Place} {as : List Atom}

theorem rereads_nil : Rereads σ τ p p [] := by
  intro v s y t _ _ hr _ _ _ _
  obtain rfl : s = [] := List.append_left_eq_self.mp hr.symm
  exact ⟨[], rfl, by simpa using Passes.nil t⟩

theorem rereads_blank {c : Char} {more : List Char} (hr : p.rest = c :: more)
    (hb : Text.isBlank c = true) (h : Passes (p.advance 1) as q)
    (ih : Rereads σ τ (p.advance 1) q as) : Rereads σ τ p q as := by
  intro v s y t hs hs' hr' ht hσ hτ hy
  obtain ⟨s₂, hs₂, -⟩ := h.span
  rw [Place.advance_one_rest hr] at hs₂
  obtain rfl : s = c :: s₂ := List.append_cancel_right (by rw [← hr', hr, hs₂]; rfl)
  have ht : t.rest = c :: (s₂ ++ y) := ht
  have hv : (c :: v).reverse ++ s₂ = v.reverse ++ c :: s₂ := by simp
  obtain ⟨as', has, hpass⟩ := ih (v := c :: v) (t := t.advance 1)
    (by rw [Place.advance_one_seen hr, hs]; rfl) (by rw [Place.advance_one_seen ht, hs']; rfl)
    (by rw [Place.advance_one_rest hr, hs₂]) (Place.advance_one_rest ht)
    (hv ▸ hσ) (hv ▸ hτ) (hv ▸ hy)
  refine ⟨as', has, .blank ht hb ?_⟩
  rwa [Place.advance_advance, Nat.add_comm] at hpass

theorem rereads_leaf {c : Char} {more : List Char} {a : Atom} (hr : p.rest = c :: more)
    (hb : Text.isBlank c = false) (hc : Bracket.closedBy? c = none)
    (ho : Bracket.openedBy? c = none) (hl : readLeaf p c more = .ok (a, q)) (h : Passes q as r)
    (ih : Rereads σ τ q r as) : Rereads σ τ p r (a :: as) := by
  intro v s y t hs hs' hr' ht hσ hτ hy
  obtain ⟨s₂, hs₂, -⟩ := h.span
  obtain ⟨kind, w, value, hmore, hq, rfl, hmove⟩ := readLeaf_move hr hl
  have hs₃ : s ++ r.rest = c :: w ++ s₂ ++ r.rest := by
    rw [← hr', hr, hmore, hs₂, List.append_assoc]; rfl
  obtain rfl := List.append_cancel_right hs₃
  have hrest : p.rest = (c :: w) ++ q.rest := by rw [hr, hmore]; rfl
  have hrest' : t.rest = (c :: w) ++ (s₂ ++ y) := by rw [ht, List.append_assoc]
  have hv : ((c :: w).reverse ++ v).reverse ++ s₂ = v.reverse ++ (c :: w ++ s₂) := by simp
  have hf : Follows (c :: w) q.rest (s₂ ++ y) := by
    rw [hs₂]
    cases s₂ with
    | cons d s₂ => exact .inl rfl
    | nil =>
      refine .inr fun x hx => hy x ?_
      rw [List.append_nil, List.getLast?_append, Option.mem_def.mp hx]; rfl
  -- only a quote looks back, and what it sees of the text before the piece does not matter
  have hraw : c = '\x27' ∨ c = '"' → isRaw t.seen = isRaw p.seen := by
    intro hquote
    have hp := hσ v.reverse c (w ++ s₂) (by simp) hquote
    have ht := hτ v.reverse c (w ++ s₂) (by simp) hquote
    rw [List.reverse_reverse] at hp ht
    rw [hs, hs', hp, ht]
  obtain ⟨as', has, hpass⟩ := ih (v := (c :: w).reverse ++ v) (t := t.advance (w.length + 1))
    (by rw [hq, ← List.length_cons (a := c), Place.advance_seen hrest, hs, List.append_assoc])
    (by rw [← List.length_cons (a := c), Place.advance_seen hrest', hs', List.append_assoc])
    hs₂ (Place.advance_rest hrest') (hv ▸ hσ) (hv ▸ hτ) (hv ▸ hy)
  refine ⟨_ :: as', ?_, .leaf hrest' hb hc ho (hmove t _ hrest' hf hraw) ?_⟩
  · simp only [List.map_cons, has, Atom.shift_leaf, List.cons.injEq, and_true, Atom.leaf.injEq,
      true_and, p.pos_eq, t.pos_eq, hs, hs', List.length_append]
    omega
  · rwa [Place.advance_advance, ← List.length_cons (a := c), ← List.length_append] at hpass

theorem rereads_group {b : Bracket} {more rest : List Char} {children : List Atom}
    (hr : p.rest = b.opener :: more) (hi : Passes (p.advance 1) children q)
    (hq : q.rest = b.closer :: rest) (h : Passes (q.advance 1) as r)
    (ihi : Rereads σ τ (p.advance 1) q children) (ih : Rereads σ τ (q.advance 1) r as) :
    Rereads σ τ p r
      (.group b p.pos (q.advance 1).pos (String.ofList ((p.advance 1).upTo q)) children :: as) := by
  intro v s y t hs hs' hr' ht hσ hτ hy
  obtain ⟨s₁, hs₁, hq₁⟩ := hi.span
  obtain ⟨s₂, hs₂, -⟩ := h.span
  rw [Place.advance_one_rest hr, hq] at hs₁
  rw [Place.advance_one_rest hq] at hs₂
  have hs₃ : s ++ r.rest = b.opener :: s₁ ++ b.closer :: s₂ ++ r.rest := by
    rw [← hr', hr, hs₁, hs₂, List.append_assoc]; rfl
  obtain rfl := List.append_cancel_right hs₃
  have hrest : t.rest = b.opener :: (s₁ ++ b.closer :: (s₂ ++ y)) := by rw [ht]; simp
  have hv₁ : v.reverse ++ (b.opener :: s₁ ++ b.closer :: s₂)
      = ((b.opener :: v).reverse ++ s₁) ++ b.closer :: s₂ := by simp
  obtain ⟨children', hch, hinner⟩ := ihi (v := b.opener :: v) (t := t.advance 1) (s := s₁)
    (by rw [Place.advance_one_seen hr, hs]; rfl)
    (by rw [Place.advance_one_seen hrest, hs']; rfl)
    (by rw [Place.advance_one_rest hr, hs₁, hq]) (Place.advance_one_rest hrest)
    (hv₁ ▸ hσ).left (hv₁ ▸ hτ).left (.of_head b.isBoundary_closer)
  have hrest₁ : ((t.advance 1).advance s₁.length).rest = b.closer :: (s₂ ++ y) :=
    Place.advance_rest (Place.advance_one_rest hrest)
  have hseen : (q.advance 1).seen = b.closer :: (s₁.reverse ++ b.opener :: v) ++ σ := by
    rw [hq₁, Place.seen_past_group (hr.trans (by rw [hs₁, hs₂])), hs]
    simp
  have hseen' : (((t.advance 1).advance s₁.length).advance 1).seen
      = b.closer :: (s₁.reverse ++ b.opener :: v) ++ τ := by
    rw [Place.seen_past_group hrest, hs']
    simp
  have hv : (b.closer :: (s₁.reverse ++ b.opener :: v)).reverse ++ s₂
      = v.reverse ++ (b.opener :: s₁ ++ b.closer :: s₂) := by simp
  obtain ⟨as', has, hpass⟩ := ih (v := b.closer :: (s₁.reverse ++ b.opener :: v))
    (t := ((t.advance 1).advance s₁.length).advance 1)
    hseen hseen'
    (by rw [Place.advance_one_rest hq, hs₂]) (Place.advance_one_rest hrest₁)
    (hv ▸ hσ) (hv ▸ hτ) (hv ▸ hy)
  refine ⟨_ :: as', ?_, .group hrest hinner hrest₁ ?_⟩
  · have hupTo : (p.advance 1).upTo q = (t.advance 1).upTo ((t.advance 1).advance s₁.length) := by
      rw [Place.upTo_advance (Place.advance_one_rest hrest), hq₁, Place.upTo_advance]
      rw [Place.advance_one_rest hr, hs₁]
    have hpos := (((t.advance 1).advance s₁.length).advance 1).pos_eq
    have hpos₁ := (q.advance 1).pos_eq
    rw [hseen'] at hpos
    rw [hseen] at hpos₁
    have hp := p.pos_eq
    have ht := t.pos_eq
    rw [hs] at hp
    rw [hs'] at ht
    simp only [List.length_append] at hp ht hpos hpos₁
    simp only [List.map_cons, has, Atom.shift_group, hch, hupTo]
    congr 2 <;> omega
  · simpa [Place.advance_advance, Nat.add_comm, Nat.add_left_comm] using hpass

end Rereads

/-- A piece of text is read again elsewhere as the same atoms, when in neither place its literals
are marked by what stands before it, whatever follows it behind a seam. -/
theorem Passes.move {p q : Place} {as : List Atom} (h : Passes p as q) (σ τ : List Char) :
    Rereads σ τ p q as := by
  induction h with
  | nil => exact rereads_nil
  | blank hr hb h ih => exact rereads_blank hr hb h ih
  | leaf hr hb hc ho hl h ih => exact rereads_leaf hr hb hc ho hl h ih
  | group hr hi hq h ihi ih => exact rereads_group hr hi hq h ihi ih

/-- Every atom that is passed lies between the ends of the passage. -/
theorem Passes.within {p q : Place} {as : List Atom} (h : Passes p as q) :
    ∀ {lo hi : Nat}, lo ≤ p.pos → q.pos ≤ hi → ∀ a ∈ as, a.Within lo hi := by
  induction h with
  | nil => simp
  | @blank p c more as q hr _ h ih =>
    intro lo hi hlo hhi
    refine ih ?_ hhi
    rw [Place.advance_one_pos hr]
    omega
  | @leaf p c more a q as r hr _ _ _ hl h ih =>
    intro lo hi hlo hhi
    obtain ⟨kind, w, value, hmore, hq, rfl, -⟩ := readLeaf_move hr hl
    have hpos : q.pos = p.pos + (w.length + 1) := by
      rw [hq]
      exact Place.advance_pos (u := c :: w) (by rw [hr, hmore]; rfl)
    have hle := h.pos_le
    refine List.forall_mem_cons.mpr ⟨.leaf hlo (by omega) (by omega), ih (by omega) hhi⟩
  | @group p b more children q rest as r hr hi hq h ihi ih =>
    intro lo hi' hlo hhi
    have hp₁ := Place.advance_one_pos hr
    have hq₁ := Place.advance_one_pos hq
    have hle := hi.pos_le
    have hle' := h.pos_le
    refine List.forall_mem_cons.mpr ⟨?_, ih (by omega) hhi⟩
    exact .group hlo (by omega) (by omega) (ihi (by omega) (by omega))

/-- The atom between two places, with nothing before and behind it. -/
inductive Spans : Place → Atom → Place → Prop where
  | leaf {p q : Place} {c : Char} {more : List Char} {a : Atom} (hr : p.rest = c :: more)
      (hl : readLeaf p c more = .ok (a, q)) : Spans p a q
  | group {p q : Place} {b : Bracket} {more rest : List Char} {children : List Atom}
      (hr : p.rest = b.opener :: more) (hi : Passes (p.advance 1) children q)
      (hq : q.rest = b.closer :: rest) :
      Spans p (.group b p.pos (q.advance 1).pos (String.ofList ((p.advance 1).upTo q)) children)
        (q.advance 1)

/-- An atom that a passage leads over, at any depth, spans a part of the text. -/
theorem Passes.spans_of_occurs {p q : Place} {as : List Atom} (h : Passes p as q) {a : Atom}
    (ho : Atom.Occurs a as) : ∃ p' q', p'.text = p.text ∧ Spans p' a q' := by
  induction h with
  | nil => cases ho <;> simp_all
  | blank _ _ _ ih => rw [← Place.text_advance]; exact ih ho
  | @leaf p c more a' q as r hr hb hc hn hl h ih =>
    obtain ⟨kind, w, value, -, hq, ha, -⟩ := readLeaf_move hr hl
    have htext : q.text = p.text := by rw [hq, Place.text_advance]
    cases ho with
    | here hm =>
      rcases List.mem_cons.mp hm with rfl | hm
      · exact ⟨p, q, rfl, .leaf hr hl⟩
      · exact htext ▸ ih (.here hm)
    | inside hm ho =>
      rcases List.mem_cons.mp hm with he | hm
      · rw [ha] at he; cases he
      · exact htext ▸ ih (.inside hm ho)
  | @group p b' more children' q rest as r hr hi hq h ihi ih =>
    have htext : (q.advance 1).text = p.text := by
      rw [Place.text_advance, hi.text_eq, Place.text_advance]
    cases ho with
    | here hm =>
      rcases List.mem_cons.mp hm with rfl | hm
      · exact ⟨p, q.advance 1, rfl, .group hr hi hq⟩
      · exact htext ▸ ih (.here hm)
    | inside hm ho =>
      rcases List.mem_cons.mp hm with he | hm
      · cases he
        exact p.text_advance 1 ▸ ihi ho
      · exact htext ▸ ih (.inside hm ho)

/-- The group that two places bound is in the text, and what it contains is passed by a passage of
its own. -/
def PassesGroup (text : List Char) (b : Bracket) (pos stop : Nat) (inner : String)
    (children : List Atom) : Prop :=
  ∃ p q more rest, Place.text p = text ∧ p.rest = b.opener :: more
    ∧ Passes (p.advance 1) children q ∧ q.rest = b.closer :: rest ∧ pos = p.pos
    ∧ stop = (q.advance 1).pos ∧ inner = String.ofList ((p.advance 1).upTo q)

theorem Passes.group_of_occurs {p q : Place} {as : List Atom} (h : Passes p as q) {b : Bracket}
    {pos stop : Nat} {inner : String} {children : List Atom}
    (ho : Atom.Occurs (.group b pos stop inner children) as) :
    PassesGroup p.text b pos stop inner children := by
  obtain ⟨p', q', htext, hs⟩ := h.spans_of_occurs ho
  cases hs with
  | leaf hr hl =>
    obtain ⟨_, _, _, _, _, ha, -⟩ := readLeaf_move hr hl
    cases ha
  | group hr hi hq => exact ⟨p', _, _, _, htext, hr, hi, hq, rfl, rfl, rfl⟩

end Scan

open Scan Literal

theorem scan_eq_ok_iff_passes {text : List Char} {as : List Atom} :
    scan text 0 = .ok as ↔ ∃ q, Passes (Place.start text) as q ∧ q.rest = [] :=
  scan_from_eq_ok_iff_passes

/-- What a passage leads over is, taken by itself, a text with the same atoms, if its literals are
not marked by what stands before it. -/
theorem Scan.Passes.scan_eq {p q : Place} {as : List Atom} (h : Passes p as q) {s : List Char}
    (hs : p.rest = s ++ q.rest) (hd : Detached p.seen s) :
    ∃ as', scan s 0 = .ok as' ∧ as'.map (Atom.shift p.pos) = as := by
  obtain ⟨as', has, hpass⟩ := h.move p.seen [] (v := []) (s := s) (y := []) (t := Place.start s)
    rfl (by simp) hs (by simp) (by simpa using hd) (detached_nil _) (.nil_right _)
  refine ⟨as', scan_eq_ok_iff_passes.mpr ⟨_, hpass, by simp [Place.advance]⟩, ?_⟩
  simpa [p.pos_eq] using has

/-- The text cut at a seam has the atoms of its two parts. -/
theorem scan_append {a b : List Char} {as bs : List Atom} (hab : Text.Seam a b)
    (ha : scan a 0 = .ok as) (hb : scan b 0 = .ok bs) :
    scan (a ++ b) 0 = .ok (as ++ bs.map (Atom.shift a.length)) := by
  obtain ⟨q, hq, hq'⟩ := scan_eq_ok_iff_passes.mp ha
  obtain ⟨r, hr, hr'⟩ := scan_eq_ok_iff_passes.mp hb
  obtain ⟨as', has, hpass⟩ := hq.move [] [] (v := []) (s := a) (y := b)
    (t := Place.start (a ++ b)) (by simp) (by simp) (by simp [hq']) (by simp)
    (detached_nil _) (detached_nil _) (by simpa using hab)
  have hrest : (Place.start (a ++ b)).rest = a ++ b := by simp
  obtain ⟨bs', hbs, hpass'⟩ := hr.move [] a.reverse (v := []) (s := b) (y := [])
    (t := (Place.start (a ++ b)).advance a.length) (by simp)
    (by rw [Place.advance_seen hrest]; simp) (by simp [hr'])
    (by rw [Place.advance_rest hrest]; simp) (detached_nil _)
    (detached_of_seam (by simpa using hab)) (.nil_right _)
  simp only [List.length_nil, Atom.map_shift_zero, List.length_reverse] at has hbs
  obtain rfl := has
  obtain rfl := hbs
  have hend : (((Place.start (a ++ b)).advance a.length).advance b.length).rest = [] := by
    rw [Place.advance_advance]; simp [Place.advance]
  exact scan_eq_ok_iff_passes.mpr ⟨_, hpass.append hpass', hend⟩

/-- What stands between the brackets of a group is, taken by itself, a text with the same atoms. -/
theorem Scan.PassesGroup.scan_inside {text : List Char} {b : Bracket} {pos stop : Nat}
    {inner : String} {children : List Atom} (h : PassesGroup text b pos stop inner children) :
    ∃ before inside after inside', text = before ++ b.opener :: (inside ++ b.closer :: after)
      ∧ before.length = pos ∧ stop = pos + inside.length + 2 ∧ inner = String.ofList inside
      ∧ scan inside 0 = .ok inside' ∧ inside'.map (Atom.shift (pos + 1)) = children := by
  obtain ⟨p, q, more, rest, htext, hp, hr, hq, rfl, rfl, rfl⟩ := h
  obtain ⟨s, hs, hqs⟩ := hr.span
  have hseam : Text.Seam (p.advance 1).seen.reverse s := by
    rw [Place.advance_one_seen hp, List.reverse_cons]
    exact .of_last b.isBoundary_opener
  obtain ⟨inside', hscan, hchildren⟩ := hr.scan_eq hs (detached_of_seam hseam)
  have hinner : (p.advance 1).upTo q = s := by rw [hqs, Place.upTo_advance hs]
  refine ⟨p.seen.reverse, s, rest, inside', ?_, ?_, ?_, by rw [hinner], hscan, ?_⟩
  · rw [Place.advance_one_rest hp] at hs
    rw [← hq, ← hs, ← hp]
    simpa [Place.text] using htext.symm
  · rw [List.length_reverse, p.pos_eq]
  · rw [Place.advance_one_pos hq, hqs, Place.advance_pos hs, Place.advance_one_pos hp]
    omega
  · rwa [Place.advance_one_pos hp] at hchildren

theorem scan_group {text : List Char} {as : List Atom} (h : scan text 0 = .ok as) {b : Bracket}
    {pos stop : Nat} {inner : String} {children : List Atom}
    (ho : Atom.Occurs (.group b pos stop inner children) as) :
    ∃ before inside after inside', text = before ++ b.opener :: (inside ++ b.closer :: after)
      ∧ before.length = pos ∧ stop = pos + inside.length + 2 ∧ inner = String.ofList inside
      ∧ scan inside 0 = .ok inside' ∧ inside'.map (Atom.shift (pos + 1)) = children := by
  obtain ⟨q₀, hq₀, -⟩ := scan_eq_ok_iff_passes.mp h
  have := hq₀.group_of_occurs ho
  rw [show (Place.start text).text = text by simp [Place.text]] at this
  exact this.scan_inside

end MarkupTemplate
