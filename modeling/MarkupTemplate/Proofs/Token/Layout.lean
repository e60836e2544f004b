import MarkupTemplate.Proofs.Token.Row

/-!
# Layouts

Things that are made of tokens lie in the tokens one after the other, some of them inside groups.
Where the tokens stand in a text, such things stand in it in the same order, each at a place of its
own.

* `Along`: things in order between two offsets.
* `Laid`: things laid out in tokens, at any depth.
* `Laid.along`: things laid out in a row of tokens stand in the text in order.
-/
namespace MarkupTemplate

variable {α β : Type}

/-- The things of a list stand one after the other between two offsets, each where `At` says. -/
inductive Along (At : α → Nat → Nat → Prop) : Nat → List α → Nat → Prop where
  | nil {lo hi : Nat} (h : lo ≤ hi) : Along At lo [] hi
  | cons {lo a b hi : Nat} {x : α} {xs : List α} (hlo : lo ≤ a) (hx : At x a b) (hab : a ≤ b)
      (h : Along At b xs hi) : Along At lo (x :: xs) hi

namespace Along

variable {At : α → Nat → Nat → Prop} {lo lo' mid hi : Nat} {xs ys : List α}

theorem le (h : Along At lo xs hi) : lo ≤ hi := by
  induction h with
  | nil h => exact h
  | cons hlo _ hab _ ih => omega

theorem mono (h : Along At lo xs hi) (hlo : lo' ≤ lo) : Along At lo' xs hi := by
  cases h with
  | nil h => exact .nil (Nat.le_trans hlo h)
  | cons hlo' hx hab h => exact .cons (Nat.le_trans hlo hlo') hx hab h

theorem append (h : Along At lo xs mid) (h' : Along At mid ys hi) :
    Along At lo (xs ++ ys) hi := by
  induction h with
  | nil h => exact h'.mono h
  | cons hlo hx hab _ ih => exact .cons hlo hx hab (ih h')

/-- Each of the things has its place between the offsets. -/
theorem exists_of_mem (h : Along At lo xs hi) {x : α} (hx : x ∈ xs) :
    ∃ a b, lo ≤ a ∧ b ≤ hi ∧ At x a b := by
  induction h with
  | nil => cases hx
  | @cons lo a b hi y ys hlo hy hab h ih =>
    rcases List.mem_cons.mp hx with rfl | hx
    · exact ⟨a, b, hlo, h.le, hy⟩
    · obtain ⟨a', b', hlo', hhi, hat⟩ := ih hx
      exact ⟨a', b', by omega, hhi, hat⟩

end Along

/-! ## Layouts -/

/-- Things lie in tokens: each is made of some of them, or of some in a group, and follows those
before it. What a thing is made of may depend on the token to its left, if there is one. -/
inductive Laid (Made : Option Token → List Token → α → Prop) :
    Option Token → List Token → List α → Prop where
  | nil {left : Option Token} {ts : List Token} : Laid Made left ts []
  | single {left : Option Token} {ts : List Token} {x : α} (h : Made left ts x) :
      Laid Made left ts [x]
  | inside {left : Option Token} {g : Token} {xs : List α} (hg : g.isGroup = true)
      (h : Laid Made none g.children xs) : Laid Made left [g] xs
  | append {left : Option Token} {ts us : List Token} {xs ys : List α} (h : Laid Made left ts xs)
      (h' : Laid Made (ts.getLast?.or left) us ys) : Laid Made left (ts ++ us) (xs ++ ys)

namespace Laid

variable {Made : Option Token → List Token → α → Prop} {left : Option Token} {t : Token}
  {ts us : List Token} {xs ys : List α}

/-- Tokens in front in which nothing lies. -/
theorem skip (h : Laid Made (ts.getLast?.or left) us xs) : Laid Made left (ts ++ us) xs :=
  (nil : Laid Made left ts []).append h

theorem skipOne (h : Laid Made (some t) us xs) : Laid Made left (t :: us) xs :=
  (nil : Laid Made left [t] []).append h

/-- Tokens behind in which nothing lies. -/
theorem stay (h : Laid Made left ts xs) : Laid Made left (ts ++ us) xs := by
  have := h.append (nil : Laid Made (ts.getLast?.or left) us [])
  rwa [List.append_nil] at this

/-- A thing in front of others. -/
theorem cons {x : α} (h : Made left ts x) (h' : Laid Made (ts.getLast?.or left) us xs) :
    Laid Made left (ts ++ us) (x :: xs) := (single h).append h'

/-- If each of the things is laid out in the tokens that it is made of, all are. -/
theorem flatMap {Made' : Option Token → List Token → β → Prop} {f : α → List β}
    (hf : ∀ left ts x, Made left ts x → Laid Made' left ts (f x)) (h : Laid Made left ts xs) :
    Laid Made' left ts (xs.flatMap f) := by
  induction h with
  | nil => exact .nil
  | single h =>
    rw [List.flatMap_cons, List.flatMap_nil, List.append_nil]
    exact hf _ _ _ h
  | inside hg _ ih => exact .inside hg ih
  | append _ _ ih ih' =>
    rw [List.flatMap_append]
    exact .append ih ih'

end Laid

/-! ## Layouts in a text -/

/-- Tokens between two offsets. -/
def Bounded (lo hi : Nat) (ts : List Token) : Prop :=
  lo ≤ hi ∧ ∀ t ∈ ts, lo ≤ t.pos ∧ t.stop ≤ hi

namespace Row

variable {text : List Char} {xs ts us ys : List Token} {t : Token} {lo hi : Nat}

/-- Between the first and the last of the tokens of a row there is an offset at any cut. -/
theorem bounded_append (h : Row text xs (ts ++ us) ys) (hb : Bounded lo hi (ts ++ us)) :
    ∃ mid, Bounded lo mid ts ∧ Bounded mid hi us := by
  obtain ⟨hle, hb⟩ := hb
  rw [List.forall_mem_append] at hb
  cases hl : ts.getLast? with
  | none =>
    obtain rfl := List.getLast?_eq_none_iff.mp hl
    exact ⟨lo, ⟨Nat.le_refl lo, by simp⟩, hle, hb.2⟩
  | some z =>
    obtain ⟨vs, rfl⟩ := List.getLast?_eq_some_iff.mp hl
    have hz := hb.1 z (by simp)
    have hzs := h.left.pos_lt_stop (t := z) (by simp)
    refine ⟨z.stop, ⟨by omega, fun t ht => ⟨(hb.1 t ht).1, ?_⟩⟩, hz.2, fun u hu =>
      ⟨h.stop_le_pos (by simp) hu, (hb.2 u hu).2⟩⟩
    rcases List.mem_append.mp ht with ht | ht
    · have := h.left.stop_le_pos ht List.mem_cons_self
      omega
    · obtain rfl := List.mem_singleton.mp ht
      exact Nat.le_refl _

theorem bounded_children (h : Row text xs [t] ys) (ht : t.isGroup = true)
    (hb : Bounded lo hi [t]) : Bounded lo hi t.children := by
  refine ⟨hb.1, fun u hu => ?_⟩
  have := h.children_bounds ht hu
  have := hb.2 t List.mem_cons_self
  omega

end Row

/-- The tokens of a text are a row of it. -/
theorem row_of_scan {text : List Char} {as : List Atom} (h : scan text 0 = .ok as) :
    Row text [] (classify as) [] ∧ Bounded 0 text.length (classify as) := by
  have hl : Level text as := .whole h
  refine ⟨⟨as, hl, (List.append_nil _).symm⟩, Nat.zero_le _, fun t ht => ⟨Nat.zero_le _, ?_⟩⟩
  obtain ⟨B, A, C, rfl, hA⟩ := makes_of_mem ht
  obtain ⟨⟨a, ha, -⟩, z, hz, hstop⟩ := hA.spans
  rw [← hstop]
  exact (hl.neighbours ha hz).le_length

/-- Things laid out in a row of tokens stand in the text in order. -/
theorem Laid.along {text : List Char} {Made : Option Token → List Token → α → Prop}
    {At : α → Nat → Nat → Prop}
    (hat : ∀ {xs ts ys x lo hi}, Row text xs ts ys → Made xs.getLast? ts x → Bounded lo hi ts →
      Along At lo [x] hi)
    {left : Option Token} {ts : List Token} {items : List α} (h : Laid Made left ts items) :
    ∀ {xs ys lo hi}, Row text xs ts ys → xs.getLast? = left → Bounded lo hi ts →
      Along At lo items hi := by
  induction h with
  | nil => exact fun _ _ hb => .nil hb.1
  | single h =>
    rintro xs ys lo hi hrow rfl hb
    exact hat hrow h hb
  | inside hg _ ih =>
    intro xs ys lo hi hrow _ hb
    exact ih (hrow.inside hg) rfl (hrow.bounded_children hg hb)
  | append _ _ ih ih' =>
    rintro xs ys lo hi hrow rfl hb
    obtain ⟨mid, hb₁, hb₂⟩ := hrow.bounded_append hb
    exact (ih hrow.left rfl hb₁).append (ih' hrow.right List.getLast?_append hb₂)

end MarkupTemplate
