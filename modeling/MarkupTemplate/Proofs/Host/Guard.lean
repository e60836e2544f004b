import MarkupTemplate.Proofs.Host.Piece

/-!
# Where a guard starts

The pieces of a pattern tell which `if` opens its guard: the first one that is a name of its own
outside all brackets. An `if` in a string literal, a comment or a longer name is part of another
piece. The cut is made by the row and the column of the word, and falls exactly there: pattern, word
and guard are the text again.

* `Position.offset_past`: the offset of the place behind a piece of text.
* `splitGuard_eq`: the split by what stands in front of the word.
* `awaited`: the brackets that are open behind some pieces.
* `OpensGuard`: the word that opens the guard.
* `splitGuard_cuts`: what the split of a text gives whose brackets nest.
-/
namespace MarkupTemplate.Host

/-! ## Rows and columns -/

namespace Position

theorem le_row_past (p : Position) (a : List Char) : p.row ≤ (p.past a).row := by
  induction a generalizing p with
  | nil => exact Nat.le_refl _
  | cons x a ih =>
    refine Nat.le_trans ?_ (ih (p.next x))
    unfold next
    split
    · exact Nat.le_succ _
    · exact Nat.le_refl _

/-- Without a line feed a place stays in its row. -/
theorem past_of_not_mem (p : Position) {a : List Char} (h : '\n' ∉ a) :
    p.past a = ⟨p.row, p.column + a.length⟩ := by
  induction a generalizing p with
  | nil => rfl
  | cons x a ih =>
    rw [List.mem_cons, not_or] at h
    obtain ⟨hx, ha⟩ := h
    show (p.next x).past a = _
    rw [ih _ ha, next, if_neg (Ne.symm hx), List.length_cons, Nat.add_right_comm]
    rfl

/-- A line feed leads into a further row. -/
theorem lt_row_past (p : Position) {a : List Char} (h : '\n' ∈ a) : p.row < (p.past a).row := by
  induction a generalizing p with
  | nil => cases h
  | cons x a ih =>
    show p.row < ((p.next x).past a).row
    by_cases hx : x = '\n'
    · have hn : (p.next x).row = p.row + 1 := by rw [next, if_pos hx]
      exact Nat.lt_of_lt_of_le (hn ▸ Nat.lt_succ_self p.row) (le_row_past (p.next x) a)
    · have hn : (p.next x).row = p.row := by rw [next, if_neg hx]
      exact hn ▸ ih (p.next x) ((List.mem_cons.mp h).resolve_left (Ne.symm hx))

theorem rows_ne_nil {s : List Char} (h : s ≠ []) : rows s ≠ [] := by
  cases s with
  | nil => exact absurd rfl h
  | cons c rest =>
    rw [rows]
    split
    · exact List.cons_ne_nil _ _
    · split <;> exact List.cons_ne_nil _ _

/-- The characters of the rows behind a place, up to the place behind a piece of text. -/
theorem length_rows_past (r : Nat) (p : Position) {a : List Char} (b : List Char)
    (ha : '\n' ∈ a) (hp : p.row = r) :
    ((rows (a ++ b)).take ((p.past a).row - r)).flatten.length + (p.past a).column
      = a.length := by
  induction a generalizing r p with
  | nil => cases ha
  | cons x a ih =>
    show ((rows (x :: (a ++ b))).take (((p.next x).past a).row - r)).flatten.length
      + ((p.next x).past a).column = a.length + 1
    by_cases hx : x = '\n'
    · subst hx
      have hn : p.next '\n' = ⟨r + 1, 0⟩ := by rw [next, if_pos rfl, hp]
      rw [rows, if_pos rfl, hn]
      have hrow := le_row_past ⟨r + 1, 0⟩ a
      by_cases hm : '\n' ∈ a
      · have := ih (r + 1) ⟨r + 1, 0⟩ hm rfl
        rw [show (past ⟨r + 1, 0⟩ a).row - r = (past ⟨r + 1, 0⟩ a).row - (r + 1) + 1 by
          simp only at hrow; omega]
        simp only [List.take_succ_cons, List.flatten_cons, List.length_append,
          List.length_singleton]
        omega
      · rw [past_of_not_mem _ hm]
        simp [Nat.add_comm]
    · -- The character stands in front of the first of the rows, which is not the last one.
      have hn : (p.next x).row = r := by rw [next, if_neg hx, hp]
      have hm : '\n' ∈ a := (List.mem_cons.mp ha).resolve_left (Ne.symm hx)
      have hrow := hn ▸ lt_row_past (p.next x) hm
      have hsum := ih r (p.next x) hm hn
      obtain ⟨k, hk⟩ := Nat.exists_eq_add_of_lt hrow
      rw [show ((p.next x).past a).row - r = k + 1 by omega] at hsum ⊢
      rw [rows, if_neg hx]
      cases hr : rows (a ++ b) with
      | nil => exact absurd hr (rows_ne_nil (List.ne_nil_of_mem (List.mem_append_left b hm)))
      | cons row others =>
        rw [hr] at hsum
        simp only [List.take_succ_cons, List.flatten_cons, List.length_append,
          List.length_cons] at hsum ⊢
        omega

/-- The offset of the place behind a piece of text at the front of a text. -/
theorem offset_past (a b : List Char) :
    ((⟨1, 0⟩ : Position).past a).offset (rows (a ++ b)) = a.length := by
  by_cases h : '\n' ∈ a
  · exact length_rows_past 1 ⟨1, 0⟩ b h rfl
  · rw [past_of_not_mem _ h]
    simp [offset]

theorem past_append (p : Position) (a b : List Char) : p.past (a ++ b) = (p.past a).past b :=
  List.foldl_append

end Position

/-! ## The text in front of the guard -/

/-- The word that opens a guard. -/
def guardWord : Piece := ⟨.name, ['i', 'f']⟩

/-- The text in front of the word that opens the guard, if there is one. -/
def front? (depth : Int) : List Piece → Option (List Char)
  | [] => none
  | p :: pieces =>
    if p = guardWord ∧ depth = 0 then some []
    else (front? (p.depthAfter depth) pieces).map (p.text ++ ·)

/-- The place of the word is behind the text in front of it. -/
theorem findGuard_eq (depth : Int) (place : Position) (pieces : List Piece) :
    findGuard depth place pieces = (front? depth pieces).map place.past := by
  induction pieces generalizing depth place with
  | nil => rfl
  | cons p pieces ih =>
    rw [findGuard, front?, ih, guardWord]
    split
    · rfl
    · rw [Option.map_map]
      exact congrArg (fun f => Option.map f _) (funext fun a => (place.past_append p.text a).symm)

/-- The word stands behind the text in front of it. -/
theorem front?_eq_some {depth : Int} {pieces : List Piece} {a : List Char}
    (h : front? depth pieces = some a) : ∃ b, pieces.flatMap Piece.text = a ++ 'i' :: 'f' :: b := by
  induction pieces generalizing depth a with
  | nil => cases h
  | cons p pieces ih =>
    rw [front?] at h
    split at h
    · next hw =>
      cases h
      exact ⟨pieces.flatMap Piece.text, by rw [hw.1]; rfl⟩
    · obtain ⟨a, ha, rfl⟩ := Option.map_eq_some_iff.mp h
      obtain ⟨b, hb⟩ := ih ha
      exact ⟨b, by rw [List.flatMap_cons, hb, List.append_assoc]⟩

/-- The cut by row and column is the cut behind the text in front of the word. -/
theorem splitGuard_eq (text : List Char) : splitGuard text =
    match front? 0 (Piece.cut text).1, (Piece.cut text).2 with
    | some a, _ => .ok (a, some (text.drop (a.length + 2)))
    | none, .complete => .ok (text, none)
    | none, .unbalanced => .error ⟨.unbalanced, none⟩
    | none, .misindented => .error ⟨.malformed, none⟩ := by
  unfold splitGuard
  dsimp only
  rw [findGuard_eq]
  cases hfront : front? 0 (Piece.cut text).1 with
  | none => cases (Piece.cut text).2 <;> rfl
  | some a =>
    obtain ⟨rest, htext, -⟩ := Piece.exists_cutAt_eq .lineStart ⟨0, false, [0]⟩ text
    obtain ⟨b, hb⟩ := front?_eq_some hfront
    rw [← Piece.cut_eq, hb, List.append_assoc] at htext
    have hoff : ((⟨1, 0⟩ : Position).past a).offset (rows text) = a.length := by
      have h := Position.offset_past a ('i' :: 'f' :: b ++ rest)
      rwa [← htext] at h
    have htake : text.take a.length = a := by rw [htext, List.take_left]
    simp only [Option.map_some, hoff, htake]

/-! ## Open brackets -/

/-- The brackets that are open behind some pieces, the innermost first, when `k` are open in front
of them; none if they do not nest. -/
def awaited (k : List Bracket) : List Piece → Option (List Bracket)
  | [] => some k
  | p :: pieces =>
    match p.kind, k with
    | .opener, _ => (p.text.head?.bind Bracket.openedBy?).bind fun b => awaited (b :: k) pieces
    | .closer, b :: k =>
      if p.text.head?.bind Bracket.closedBy? = some b then awaited k pieces else none
    | .closer, [] => none
    | _, _ => awaited k pieces

/-- While brackets nest, their depth is the number of those that are open. -/
theorem depth_awaited {k k' : List Bracket} {p : Piece} {pieces : List Piece}
    (h : awaited k (p :: pieces) = some k') :
    ∃ k₁, awaited k [p] = some k₁ ∧ awaited k₁ pieces = some k'
      ∧ p.depthAfter k.length = k₁.length := by
  obtain ⟨kind, text⟩ := p
  cases kind with
  | opener =>
    simp only [awaited] at h
    obtain ⟨b, hb, h⟩ := Option.bind_eq_some_iff.mp h
    exact ⟨b :: k, by simp only [awaited, hb, Option.bind_some], h, by simp [Piece.depthAfter]⟩
  | closer =>
    cases k with
    | nil => cases h
    | cons b k =>
      simp only [awaited] at h
      split at h
      · next hb => exact ⟨k, by simp [awaited, hb], h, by simp [Piece.depthAfter]⟩
      · cases h
  | _ => exact ⟨k, rfl, h, rfl⟩

theorem awaited_append (k : List Bracket) (a b : List Piece) :
    awaited k (a ++ b) = (awaited k a).bind fun k' => awaited k' b := by
  induction a generalizing k with
  | nil => rfl
  | cons p a ih =>
    obtain ⟨kind, text⟩ := p
    cases kind with
    | opener =>
      simp only [List.cons_append, awaited, ih]
      cases text.head?.bind Bracket.openedBy? <;> rfl
    | closer =>
      cases k with
      | nil => rfl
      | cons b' k =>
        simp only [List.cons_append, awaited, ih]
        split <;> rfl
    | _ => exact ih k

/-! ## The word that opens the guard -/

/-- The pieces `before` are those in front of the first word outside all brackets that opens a
guard, `k` brackets being open in front of them. -/
structure OpensGuard (k : List Bracket) (pieces before after : List Piece) : Prop where
  split : pieces = before ++ guardWord :: after
  outside : awaited k before = some []
  first : ∀ a b, before = a ++ guardWord :: b → awaited k a ≠ some []

/-- Where the search for the guard ends: nowhere, or at the word that opens it. -/
theorem front?_eq {k k' : List Bracket} {pieces : List Piece} (h : awaited k pieces = some k') :
    (front? k.length pieces = none
        ∧ ∀ a b, pieces = a ++ guardWord :: b → awaited k a ≠ some [])
      ∨ ∃ before after, OpensGuard k pieces before after
        ∧ front? k.length pieces = some (before.flatMap Piece.text) := by
  induction pieces generalizing k with
  | nil => exact .inl ⟨rfl, fun a b h => by cases a <;> cases h⟩
  | cons p pieces ih =>
    rw [front?]
    split
    · next hw =>
      obtain ⟨rfl, hk⟩ := hw
      obtain rfl := List.eq_nil_of_length_eq_zero (Int.ofNat_eq_zero.mp hk)
      exact .inr ⟨[], pieces, ⟨rfl, rfl, fun a b h => by cases a <;> cases h⟩, rfl⟩
    · next hw =>
      obtain ⟨k₁, hp, hrest, hdepth⟩ := depth_awaited h
      -- The first piece does not open the guard, so that a word that does is among the others.
      have others : ∀ {xs a b}, p :: xs = a ++ guardWord :: b → awaited k a = some [] →
          ∃ a', xs = a' ++ guardWord :: b ∧ awaited k₁ a' = some [] := by
        intro xs a b hab ha
        cases a with
        | nil =>
          obtain rfl : k = [] := Option.some.inj ha
          exact absurd ⟨(List.cons.inj hab).1, rfl⟩ hw
        | cons q a =>
          obtain ⟨rfl, htail⟩ := List.cons.inj hab
          rw [← List.singleton_append, awaited_append, hp] at ha
          exact ⟨a, htail, ha⟩
      rw [hdepth]
      obtain ⟨hnone, hno⟩ | ⟨before, after, ho, hsome⟩ := ih hrest
      · refine .inl ⟨by rw [hnone]; rfl, fun a b hab ha => ?_⟩
        obtain ⟨a', hab', ha'⟩ := others hab ha
        exact hno a' b hab' ha'
      · refine .inr ⟨p :: before, after, ⟨?_, ?_, fun a b hab ha => ?_⟩, by rw [hsome]; rfl⟩
        · rw [ho.split, List.cons_append]
        · rw [← List.singleton_append, awaited_append, hp]
          exact ho.outside
        · obtain ⟨a', hab', ha'⟩ := others hab ha
          exact ho.first a' b hab' ha'

/-! ## The split -/

/-- A text whose brackets nest is split at the first `if` that is a name of its own outside all
brackets; nothing but this word is lost, and without such a word the text is left whole. -/
theorem splitGuard_cuts {text : List Char} {pieces : List Piece}
    (hcut : Piece.cut text = (pieces, .complete)) (hnest : awaited [] pieces = some []) :
    pieces.flatMap Piece.text = text
      ∧ ((splitGuard text = .ok (text, none)
          ∧ ∀ a b, pieces = a ++ guardWord :: b → awaited [] a ≠ some [])
        ∨ ∃ before after, OpensGuard [] pieces before after
          ∧ splitGuard text
            = .ok (before.flatMap Piece.text, some (after.flatMap Piece.text))
          ∧ before.flatMap Piece.text ++ ['i', 'f'] ++ after.flatMap Piece.text = text) := by
  have htext : pieces.flatMap Piece.text = text := by
    obtain ⟨rest, htext, hrest⟩ := Piece.exists_cutAt_eq .lineStart ⟨0, false, [0]⟩ text
    rw [← Piece.cut_eq, hcut] at htext hrest
    rw [hrest rfl, List.append_nil] at htext
    exact htext.symm
  refine ⟨htext, ?_⟩
  rw [splitGuard_eq, hcut]
  obtain ⟨hnone, hno⟩ | ⟨before, after, ho, hsome⟩ := front?_eq hnest
  · change front? 0 pieces = none at hnone
    exact .inl ⟨by rw [hnone], hno⟩
  · change front? 0 pieces = _ at hsome
    have hwhole : before.flatMap Piece.text ++ ['i', 'f'] ++ after.flatMap Piece.text = text := by
      rw [← htext, ho.split, List.flatMap_append, List.flatMap_cons, List.append_assoc]
      rfl
    have hdrop : text.drop ((before.flatMap Piece.text).length + 2)
        = after.flatMap Piece.text := by
      rw [← hwhole]
      exact List.drop_left' (by simp)
    exact .inr ⟨before, after, ho, by simp only [hsome, hdrop], hwhole⟩

/-- An `if` in a literal of two rows, one in brackets, and on the third row the one that counts. -/
theorem splitGuard_cuts_rows :
    let text := "\"\"\"if\n\"\"\"|[if]\nif x".toList
    let front : List Piece :=
      [⟨.other, []⟩, ⟨.literal, "\"\"\"if\n\"\"\"".toList⟩, ⟨.other, ['|']⟩, ⟨.opener, ['[']⟩,
        ⟨.name, ['i', 'f']⟩, ⟨.closer, [']']⟩, ⟨.other, ['\n']⟩, ⟨.other, []⟩]
    let pieces := front ++ guardWord :: [⟨.other, [' ']⟩, ⟨.name, ['x']⟩]
    Piece.cut text = (pieces, .complete) ∧ awaited [] pieces = some []
      ∧ ∃ before after, OpensGuard [] pieces before after
        ∧ splitGuard text
          = .ok (before.flatMap Piece.text, some (after.flatMap Piece.text)) := by
  intro text front pieces
  have hcut : Piece.cut text = (pieces, .complete) := by decide +kernel
  have hnest : awaited [] pieces = some [] := by decide
  obtain ⟨-, ⟨-, hno⟩ | ⟨before, after, ho, hsplit, -⟩⟩ := splitGuard_cuts hcut hnest
  · exact absurd (by decide) (hno front _ rfl)
  · exact ⟨hcut, hnest, before, after, ho, hsplit⟩

end MarkupTemplate.Host
