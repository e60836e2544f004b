import MarkupTemplate.Proofs.Atom.Partition
import MarkupTemplate.Proofs.Text.Slice

/-!
# Levels of a text

The atoms of the text and those of every group in it are its levels. Neighbouring atoms of a level
can be cut out: what they stand for is, taken by itself, a text with the same atoms, as long as its
literals are not marked by what stands before the cut.

* `Neighbours`: where atoms next to each other stand.
* `Partition.blank_between`: what stands between two of them.
* `Level`: the atoms of the text or of a group in it.
* `Level.scan_slice`: atoms that are cut out of a level.
* `Level.boundary_or`: what stands before an atom of a level.
* `scan_inner`: what stands in a group, at any depth, is a text with the atoms of the group.
-/
namespace MarkupTemplate

open Text (slice)

theorem Place.seen_eq (p : Place) : p.seen = (p.text.take p.pos).reverse := by
  rw [text, p.pos_eq, ← List.length_reverse, List.take_left, List.reverse_reverse]

/-! ## Neighbours -/

/-- The text of some atoms, from the first to the last. -/
def Text.ofAtoms (text : List Char) (as : List Atom) : List Char :=
  match as.head?, as.getLast? with
  | some a, some z => slice text a.pos z.stop
  | _, _ => []

/-- Neighbours from `a` to `z` stand in the text between the atoms before and those behind, and
what they stand for has no blank at its ends. -/
structure Neighbours (text : List Char) (before after : List Atom) (a z : Atom) : Prop where
  first : a.pos < a.stop
  lt : a.pos < z.stop
  le_length : z.stop ≤ text.length
  before : ∀ x ∈ before, x.stop ≤ a.pos
  after : ∀ x ∈ after, z.stop ≤ x.pos
  solid : Text.Solid (slice text a.pos z.stop)

namespace Partition

variable {text : List Char} {lo mid hi i : Nat} {as bs before after : List Atom} {a z : Atom}

theorem bounds (h : Partition text lo hi as) :
    ∀ a ∈ as, lo ≤ a.pos ∧ a.pos < a.stop ∧ a.stop ≤ hi := by
  obtain ⟨-, bounds, -, -, -⟩ := h
  exact bounds

theorem neighbours (h : Partition text lo hi (before ++ (as ++ after))) (hhi : hi ≤ text.length)
    (ha : as.head? = some a) (hz : as.getLast? = some z) :
    Neighbours text before after a z := by
  obtain ⟨order, bounds, -, shows, -⟩ := h
  have hab := bounds a (by simp [List.mem_of_head? ha])
  have hzb := bounds z (by simp [List.mem_of_getLast? hz])
  obtain ⟨-, order, hcross⟩ := List.pairwise_append.mp order
  obtain ⟨order, -, hcross'⟩ := List.pairwise_append.mp order
  have haz : a.pos < z.stop := by
    obtain ⟨as, rfl⟩ := List.head?_eq_some_iff.mp ha
    rcases List.mem_cons.mp (List.mem_of_getLast? hz) with rfl | hm
    · exact hab.2.1
    · have := (List.pairwise_cons.mp order).1 z hm
      omega
  have hzt : z.stop ≤ text.length := by omega
  refine ⟨hab.2.1, haz, hzt, fun x hx => ?_, fun x hx => ?_, ?_⟩
  · exact hcross x hx a (by simp [List.mem_of_head? ha])
  · exact hcross' z (List.mem_of_getLast? hz) x hx
  · have hsa := (shows a (by simp [List.mem_of_head? ha])).2.1
    have hsz := (shows z (by simp [List.mem_of_getLast? hz])).2.2
    rw [Text.head?_slice hab.2.1] at hsa
    rw [Text.getLast?_slice hzb.2.1 hzt] at hsz
    rw [Text.Solid, Text.head?_slice haz, Text.getLast?_slice haz hzt]
    exact ⟨hsa, hsz⟩

/-- Between the atoms before a cut and those behind it are only blanks. -/
theorem blank_between (h : Partition text lo hi (as ++ bs)) (hlo : lo ≤ i) (hhi : i < hi)
    (ha : ∀ z ∈ as.getLast?, z.stop ≤ i) (hb : ∀ b ∈ bs.head?, i < b.pos) :
    ∃ c ∈ text[i]?, Text.isBlank c = true := by
  obtain ⟨order, bounds, blank, -, -⟩ := h
  obtain ⟨hleft, hright, -⟩ := List.pairwise_append.mp order
  refine blank i hlo hhi fun x hx => ?_
  rcases List.mem_append.mp hx with hx | hx
  · right
    cases hz : as.getLast? with
    | none =>
      rw [List.getLast?_eq_none_iff.mp hz] at hx
      cases hx
    | some z =>
      have hzi := ha z hz
      obtain ⟨init, rfl⟩ := List.getLast?_eq_some_iff.mp hz
      rcases List.mem_append.mp hx with hx | hx
      · have := (List.pairwise_append.mp hleft).2.2 x hx z List.mem_cons_self
        have := bounds z (by simp)
        omega
      · rwa [List.mem_singleton.mp hx]
  · left
    cases bs with
    | nil => cases hx
    | cons b bs =>
      have hib := hb b rfl
      rcases List.mem_cons.mp hx with rfl | hx
      · exact hib
      · have := (List.pairwise_cons.mp hright).1 x hx
        have := bounds b (by simp)
        omega

/-- A part of the text that is cut between two atoms is, without the blanks at its ends, the text of
the atoms in it. -/
theorem trim_slice (h : Partition text lo hi (as ++ bs)) (hlo : lo ≤ mid) (hhi : mid ≤ hi)
    (hlen : hi ≤ text.length) (ha : ∀ a ∈ as, a.stop ≤ mid) (hb : ∀ b ∈ bs, mid ≤ b.pos) :
    Text.trim (slice text lo mid) = Text.ofAtoms text as := by
  cases hhead : as.head? with
  | none =>
    obtain rfl := List.head?_eq_none_iff.mp hhead
    have hnil : slice text lo lo = [] := by simp [slice]
    refine (Text.trim_slice (Nat.le_refl lo) (Nat.le_refl lo) hlo (fun i _ _ => by omega)
      (fun i h₁ h₂ => h.blank_between h₁ (by omega) (by simp) fun b hm => ?_) (by simp [hnil])
      (by simp [hnil])).trans hnil
    have := hb b (List.mem_of_head? hm)
    omega
  | some a =>
    obtain ⟨z, hz⟩ := Option.isSome_iff_exists.mp (List.getLast?_isSome.mpr
      (List.ne_nil_of_mem (List.mem_of_head? hhead)))
    have hrun : Partition text lo hi ([] ++ (as ++ bs)) := h
    have hn := hrun.neighbours hlen hhead hz
    have hofAtoms : Text.ofAtoms text as = slice text a.pos z.stop := by
      simp only [Text.ofAtoms, hhead, hz]
    obtain ⟨hloa, -, hat⟩ := h.bounds a (by simp [List.mem_of_head? hhead])
    rw [hofAtoms]
    refine Text.trim_slice hloa (Nat.le_of_lt hn.lt) (ha z (List.mem_of_getLast? hz))
      (fun i h₁ h₂ => hrun.blank_between h₁ (by have := hn.first; omega) (by simp) ?_)
      (fun i h₁ h₂ => h.blank_between (by have := hn.lt; omega) (by omega) ?_ fun b hm => ?_)
      hn.solid.1 hn.solid.2
    · rw [List.head?_append, hhead]
      simpa using h₂
    · simpa [hz] using h₁
    · have := hb b (List.mem_of_head? hm)
      omega

end Partition

/-! ## Levels -/

/-- The atoms of the text or of a group in it. -/
inductive Level (text : List Char) : List Atom → Prop where
  | whole {as : List Atom} (h : scan text 0 = .ok as) : Level text as
  | inside {as : List Atom} {b : Bracket} {pos stop : Nat} {inner : String}
      {children : List Atom} (h : Level text as) (hm : .group b pos stop inner children ∈ as) :
      Level text children

namespace Level

variable {text : List Char} {as before after : List Atom} {a z : Atom}

/-- The atoms of a level are passed from its start on, which is the start of the text or stands
behind a bracket. -/
theorem passes (h : Level text as) : ∃ p q, p.text = text ∧ Scan.Passes p as q
    ∧ ∀ c ∈ p.seen.head?, Text.isBoundary c = true := by
  induction h with
  | whole h =>
    obtain ⟨q, hq, -⟩ := scan_eq_ok_iff_passes.mp h
    exact ⟨_, q, Place.text_ofOffset text 0, hq, by simp [Place.ofOffset]⟩
  | @inside as b _ _ _ _ _ hm ih =>
    obtain ⟨p, q, rfl, hq, -⟩ := ih
    obtain ⟨p', q', more, rest, htext, hr, hpass, -⟩ := hq.group_of_occurs (.here hm)
    refine ⟨p'.advance 1, q', by rw [Place.text_advance, htext], hpass, ?_⟩
    rw [Place.advance_one_seen hr]
    simpa using b.isBoundary_opener

/-- A level partitions a part of the text that stands behind a boundary. -/
theorem partition (h : Level text as) : ∃ lo hi, hi ≤ text.length ∧ Partition text lo hi as
    ∧ ∀ c ∈ (text.take lo).getLast?, Text.isBoundary c = true := by
  obtain ⟨p, q, rfl, hq, hseen⟩ := h.passes
  refine ⟨p.pos, q.pos, ?_, hq.partition, ?_⟩
  · rw [← hq.text_eq, Place.text, List.length_append, List.length_reverse, ← q.pos_eq]
    omega
  · rwa [p.seen_eq, List.head?_reverse] at hseen

theorem shows (h : Level text as) :
    ∀ a ∈ as, a.Shows text ∧ Text.Solid (slice text a.pos a.stop) := by
  obtain ⟨lo, hi, -, ⟨-, -, -, shows, -⟩, -⟩ := h.partition
  exact shows

theorem neighbours (h : Level text (before ++ (as ++ after))) (ha : as.head? = some a)
    (hz : as.getLast? = some z) : Neighbours text before after a z := by
  obtain ⟨lo, hi, hhi, hp, -⟩ := h.partition
  exact hp.neighbours hhi ha hz

/-- Neighbours that are cut out of a level are the atoms of their own text. -/
theorem scan_slice (h : Level text (before ++ (as ++ after))) (ha : as.head? = some a)
    (hz : as.getLast? = some z)
    (hd : Literal.Detached (text.take a.pos).reverse (slice text a.pos z.stop)) :
    ∃ atoms, scan (slice text a.pos z.stop) 0 = .ok atoms
      ∧ atoms.map (Atom.shift a.pos) = as := by
  obtain ⟨p, q, rfl, hq, -⟩ := h.passes
  obtain ⟨p₁, hp₁, hq⟩ := hq.split
  obtain ⟨q₁, hq₁, -⟩ := hq.split
  have hne : as ≠ [] := by
    rintro rfl
    cases ha
  obtain ⟨r, s, hr, hrs, -, hpos, hstop⟩ := hq₁.cut hne
  rw [(List.head_eq_iff_head?_eq_some hne).mpr ha] at hpos
  rw [(List.getLast_eq_iff_getLast?_eq_some hne).mpr hz] at hstop
  obtain ⟨w, hw, hs⟩ := hrs.span
  have htext : r.text = p.text := hr.text_eq.trans hp₁.text_eq
  have hspos : s.pos = r.pos + w.length := hs ▸ Place.advance_pos hw
  have hslice : slice p.text a.pos z.stop = w := by
    rw [← hpos, ← hstop, hspos, ← htext]
    exact Place.slice_text hw
  rw [hslice] at hd ⊢
  rw [← hpos] at hd ⊢
  refine hrs.scan_eq hw ?_
  rwa [r.seen_eq, htext]

/-- What stands in a group of a level has, by itself, the atoms of the group. -/
theorem scan_inside {b : Bracket} {pos stop : Nat} {inner : String} {children : List Atom}
    (h : Level text as) (hm : .group b pos stop inner children ∈ as) :
    ∃ atoms, scan inner.toList 0 = .ok atoms ∧ atoms.map (Atom.shift (pos + 1)) = children := by
  obtain ⟨p, q, rfl, hq, -⟩ := h.passes
  obtain ⟨-, inside, -, atoms, -, -, -, rfl, hscan, hchildren⟩ :=
    (hq.group_of_occurs (.here hm)).scan_inside
  exact ⟨atoms, by rwa [String.toList_ofList], hchildren⟩

/-- Before an atom stands a boundary or nothing, unless it touches the atom before it. -/
theorem boundary_or (h : Level text (before ++ a :: after)) :
    (∀ c ∈ (text.take a.pos).getLast?, Text.isBoundary c = true)
      ∨ ∃ z, before.getLast? = some z ∧ z.stop = a.pos := by
  obtain ⟨lo, hi, hhi, hp, hlo⟩ := h.partition
  have hn : Neighbours text before after a a :=
    neighbours (show Level text (before ++ ([a] ++ after)) from h) rfl rfl
  obtain ⟨hla, -, hah⟩ := hp.bounds a (by simp)
  by_cases htouch : ∃ z, before.getLast? = some z ∧ z.stop = a.pos
  · exact .inr htouch
  left
  intro c hc
  by_cases hstart : a.pos = lo
  · exact hlo c (hstart ▸ hc)
  -- if the atom before it ends earlier, the character before it is outside the atoms
  obtain ⟨d, hd, hb⟩ := hp.blank_between (i := a.pos - 1) (by omega) (by have := hn.first; omega)
    (fun z hz => by
      have := hn.before z (List.mem_of_getLast? hz)
      have : z.stop ≠ a.pos := fun he => htouch ⟨z, hz, he⟩
      omega)
    (by simp; omega)
  rw [List.getLast?_take, if_neg (by omega), Option.mem_def.mp hd, Option.some_or] at hc
  rw [← Option.some.inj hc]
  exact Text.isBoundary_of_isBlank hb

theorem slice_of_punct (h : Level text as) {value : String} {pos stop : Nat}
    (hm : .leaf .punct value pos stop ∈ as) : Text.slice text pos stop = value.toList := by
  have hs : LeafShows .punct value (Text.slice text pos stop) (text.drop stop) := (h.shows _ hm).1
  rw [hs.1, String.toList_ofList]

end Level

/-! ## Groups by themselves -/

end MarkupTemplate
