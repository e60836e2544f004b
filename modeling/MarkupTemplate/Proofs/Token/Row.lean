import MarkupTemplate.Proofs.Atom.Level
import MarkupTemplate.Proofs.Token.Segment

/-!
# Tokens in a row

Tokens next to each other in the text or in a group of it stand in the text in order. Each shows its
first character or its word there, and between two neighbours are only blanks.

* `Row`: tokens in a row, with the tokens before and behind them.
* `Row.left`, `Row.right`, `Row.inside`: parts of a row, and the row inside a group.
* `Row.stop_le_pos`: the order in the text.
* `Text.WordAt`, `Row.wordAt`: a keyword in the text.
-/
namespace MarkupTemplate

/-- The tokens `ts` stand between `xs` and `ys` in the text or in a group of it. -/
def Row (text : List Char) (xs ts ys : List Token) : Prop :=
  ∃ as, Level text as ∧ classify as = xs ++ (ts ++ ys)

/-- A word stands at an offset of a text, as a piece of its own. -/
def Text.WordAt (text : List Char) (pos : Nat) (word : String) : Prop :=
  slice text pos (pos + word.toList.length) = word.toList
    ∧ ∃ as, Level text as ∧ Atom.leaf .ident word pos (pos + word.toList.length) ∈ as

namespace Row

variable {text : List Char} {xs ts us ys : List Token} {t u : Token}

/-! ## Parts -/

theorem left (h : Row text xs (ts ++ us) ys) : Row text xs ts (us ++ ys) := by
  obtain ⟨as, hl, has⟩ := h
  exact ⟨as, hl, by rw [has, List.append_assoc]⟩

theorem right (h : Row text xs (ts ++ us) ys) : Row text (xs ++ ts) us ys := by
  obtain ⟨as, hl, has⟩ := h
  exact ⟨as, hl, by rw [has, List.append_assoc, List.append_assoc]⟩

theorem widen (h : Row text (xs ++ ts) us ys) : Row text xs (ts ++ us) ys := by
  obtain ⟨as, hl, has⟩ := h
  exact ⟨as, hl, by rw [has, List.append_assoc, List.append_assoc]⟩

theorem head (h : Row text xs (t :: ts) ys) : Row text xs [t] (ts ++ ys) :=
  left (show Row text xs ([t] ++ ts) ys from h)

theorem tail (h : Row text xs (t :: ts) ys) : Row text (xs ++ [t]) ts ys :=
  right (show Row text xs ([t] ++ ts) ys from h)

theorem single (h : Row text xs ts ys) (ht : t ∈ ts) : ∃ xs ys, Row text xs [t] ys := by
  obtain ⟨vs, us, rfl⟩ := List.append_of_mem ht
  exact ⟨xs ++ vs, us ++ ys, h.right.head⟩

/-- The atoms of the tokens of a row, of those before and of those behind. -/
theorem atoms (h : Row text xs ts ys) : ∃ B A C, Level text (B ++ (A ++ C))
    ∧ classify B = xs ∧ classify A = ts ∧ classify C = ys := by
  obtain ⟨as, hl, has⟩ := h
  obtain ⟨B, D, rfl, hB, hD⟩ := classify_eq_append has
  obtain ⟨A, C, rfl, hA, hC⟩ := classify_eq_append hD
  exact ⟨B, A, C, hl, hB, hA, hC⟩

/-- The atoms of one token of a row. -/
theorem makes (h : Row text xs [t] ys) : ∃ B A C, Level text (B ++ (A ++ C)) ∧ Makes A t := by
  obtain ⟨B, A, C, hl, -, hA, -⟩ := h.atoms
  exact ⟨B, A, C, hl, makes_of_classify hA⟩

/-! ## Order -/

theorem pos_lt_stop (h : Row text xs ts ys) (ht : t ∈ ts) : t.pos < t.stop := by
  obtain ⟨xs, ys, h⟩ := h.single ht
  obtain ⟨B, A, C, hl, hA⟩ := h.makes
  obtain ⟨⟨a, ha, hpos⟩, z, hz, hstop⟩ := hA.spans
  rw [← hpos, ← hstop]
  exact (hl.neighbours ha hz).lt

theorem stop_le_pos (h : Row text xs (ts ++ us) ys) (ht : t ∈ ts) (hu : u ∈ us) :
    t.stop ≤ u.pos := by
  obtain ⟨B, A, C, hl, -, hA, -⟩ := h.atoms
  obtain ⟨A₁, A₂, rfl, rfl, rfl⟩ := classify_eq_append hA
  obtain ⟨D, E, F, rfl, hE⟩ := makes_of_mem ht
  obtain ⟨G, H, I, rfl, hH⟩ := makes_of_mem hu
  obtain ⟨⟨a, ha, -⟩, z, hz, hstop⟩ := hE.spans
  obtain ⟨⟨b, hb, hpos⟩, -⟩ := hH.spans
  have hl : Level text ((B ++ D) ++ (E ++ (F ++ (G ++ (H ++ I) ++ C)))) := by simpa using hl
  rw [← hpos, ← hstop]
  exact (hl.neighbours ha hz).after b (by simp [List.mem_of_head? hb])

/-- Only blanks stand between two neighbours. -/
theorem blank_between (h : Row text xs (t :: u :: us) ys) {i : Nat} (ht : t.stop ≤ i)
    (hu : i < u.pos) : ∃ c ∈ text[i]?, Text.isBlank c = true := by
  obtain ⟨B, A, C, hl, -, hA, -⟩ := h.atoms
  obtain ⟨D, E, rfl, hD, hE⟩ := classify_eq_append (show classify A = [t] ++ (u :: us) from hA)
  obtain ⟨-, z, hz, hstop⟩ := (makes_of_classify hD).spans
  have hu' : (classify E).head? = some u := by rw [hE]; rfl
  obtain ⟨a, ha, hpos⟩ := head_of_classify hu'
  have hsplit : B ++ (D ++ E ++ C) = (B ++ D) ++ (E ++ C) := by simp
  obtain ⟨lo, hi, -, hp, -⟩ := hl.partition
  have hzb := hp.bounds z (by simp [List.mem_of_getLast? hz])
  have hab := hp.bounds a (by simp [List.mem_of_head? ha])
  rw [hsplit] at hp
  refine hp.blank_between (by omega) (by omega) (fun y hy => ?_) fun b hb => ?_
  · rw [List.getLast?_append, hz, Option.some_or] at hy
    rw [← Option.some.inj hy]
    omega
  · rw [List.head?_append, ha, Option.some_or] at hb
    rw [← Option.some.inj hb]
    omega

/-- Between the tokens of a row stand only blanks. -/
theorem isChain_blank (h : Row text xs ts ys) :
    ts.IsChain fun t u => ∀ c ∈ Text.slice text t.stop u.pos, Text.isBlank c = true := by
  induction ts generalizing xs with
  | nil => exact .nil
  | cons t ts ih =>
    cases ts with
    | nil => exact .singleton t
    | cons u ts =>
      refine .cons_cons (fun c hc => ?_) (ih h.tail)
      obtain ⟨i, hlo, hhi, hi⟩ := Text.mem_slice hc
      obtain ⟨d, hd, hb⟩ := h.blank_between hlo hhi
      obtain rfl := Option.some.inj (hi.symm.trans hd)
      exact hb

/-! ## Groups -/

/-- A group of a row is a group of atoms. -/
theorem group (h : Row text xs [t] ys) (ht : t.isGroup = true) :
    ∃ b inner children as, Level text as ∧ Atom.group b t.pos t.stop inner children ∈ as
      ∧ t = .mk (groupTokenKind b) b.opener.toString t.pos t.stop inner (classify children) := by
  obtain ⟨B, A, C, hl, hA⟩ := h.makes
  obtain ⟨b, inner, children, rfl, he⟩ := hA.of_group ht
  exact ⟨b, inner, children, _, hl, by simp, he⟩

/-- The tokens in a group are in a row. -/
theorem inside (h : Row text xs [t] ys) (ht : t.isGroup = true) : Row text [] t.children [] := by
  obtain ⟨b, inner, children, as, hl, hm, he⟩ := h.group ht
  exact ⟨children, hl.inside hm, by rw [he]; exact (List.append_nil _).symm⟩

/-- The tokens in a group stand between its brackets. -/
theorem children_bounds (h : Row text xs [t] ys) (ht : t.isGroup = true) (hu : u ∈ t.children) :
    t.pos < u.pos ∧ u.stop < t.stop := by
  obtain ⟨b, inner, children, as, hl, hm, he⟩ := h.group ht
  obtain ⟨lo, hi, -, ⟨-, bounds, -, -, inside⟩, -⟩ := hl.partition
  have hin := inside _ _ _ _ _ hm
  rw [he] at hu
  obtain ⟨B, A, C, rfl, hA⟩ := makes_of_mem (show u ∈ classify children from hu)
  obtain ⟨⟨a, ha, hpos⟩, z, hz, hstop⟩ := hA.spans
  have h₁ := hin.bounds a (by simp [List.mem_of_head? ha])
  have h₂ := hin.bounds z (by simp [List.mem_of_getLast? hz])
  have h₃ := bounds _ hm
  simp only [Atom.pos, Atom.stop] at h₃
  omega

end Row

/-! ## Characters -/

namespace Row

variable {text : List Char} {xs ys : List Token} {t : Token}

theorem opener (h : Row text xs [t] ys) {b : Bracket} (ht : t.kind = groupTokenKind b) :
    text[t.pos]? = some b.opener := by
  obtain ⟨b', inner, children, as, hl, hm, he⟩ := h.group (Token.isGroup_of_kind ht)
  obtain rfl : b' = b := by
    rw [he] at ht
    cases b <;> cases b' <;> first | rfl | cases ht
  rw [← Text.head?_slice (h.pos_lt_stop List.mem_cons_self),
    show Text.slice text t.pos t.stop = _ from (hl.shows _ hm).1]
  rfl

theorem slice_of_punct (h : Row text xs [t] ys) {value : String}
    (ht : t.has .punct value = true) : Text.slice text t.pos t.stop = value.toList := by
  obtain ⟨hk, rfl⟩ := Token.kind_of_has ht
  obtain ⟨B, A, C, hl, hA⟩ := h.makes
  obtain rfl := hA.of_punct hk
  exact hl.slice_of_punct (by simp)

theorem wordAt (h : Row text xs [t] ys) {word : String} (ht : t.has .keyword word = true) :
    Text.WordAt text t.pos word ∧ t.stop = t.pos + word.toList.length := by
  obtain ⟨hk, rfl⟩ := Token.kind_of_has ht
  obtain ⟨B, A, C, hl, hA⟩ := h.makes
  obtain ⟨rfl, -⟩ := hA.of_keyword hk
  have hm : Atom.leaf .ident t.value t.pos t.stop
      ∈ B ++ ([.leaf .ident t.value t.pos t.stop] ++ C) := by simp
  have hslice : Text.slice text t.pos t.stop = t.value.toList := by
    conv => rhs; rw [(hl.shows _ hm).1.1, String.toList_ofList]
  have hn : Neighbours text B C (.leaf .ident t.value t.pos t.stop)
    (.leaf .ident t.value t.pos t.stop) := hl.neighbours rfl rfl
  have hlen : (Text.slice text t.pos t.stop).length = _ := congrArg List.length hslice
  rw [Text.length_slice (show t.stop ≤ text.length from hn.le_length)] at hlen
  have hstop : t.stop = t.pos + t.value.toList.length := by
    have : t.pos < t.stop := hn.lt
    omega
  exact ⟨⟨hstop ▸ hslice, _, hl, hstop ▸ hm⟩, hstop⟩

/-- No blank stands where a token starts. -/
theorem not_isBlank (h : Row text xs [t] ys) :
    ∃ c ∈ text[t.pos]?, Text.isBlank c = false := by
  obtain ⟨B, A, C, hl, hA⟩ := h.makes
  obtain ⟨⟨a, ha, hpos⟩, z, hz, -⟩ := hA.spans
  have hn := hl.neighbours ha hz
  have hsolid := hn.solid.1
  rw [Text.head?_slice hn.lt, hpos] at hsolid
  have hlt : t.pos < text.length := by
    have := hn.lt
    have := hn.le_length
    omega
  exact ⟨text[t.pos], List.getElem?_eq_getElem hlt, hsolid _ (List.getElem?_eq_getElem hlt)⟩

end Row

end MarkupTemplate
