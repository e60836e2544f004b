import Mathlib.Data.List.Forall2
import Mathlib.Data.List.SplitBy
import MarkupTemplate.Proofs.Atom.Detached
import MarkupTemplate.Proofs.Attribute
import MarkupTemplate.Proofs.Cursor.Takes
import MarkupTemplate.Proofs.Token.Row

/-!
# Squeezed tokens

Tokens next to each other are squeezed when they are written one after the other with one blank for
any gap between them. What is written has the same tokens, and squeezing these changes nothing.

* `Token.Moved`: the same token somewhere else.
* `joinedOf_append`: tokens that are squeezed on both sides of a gap.
* `Squeezed`: the tokens of a text are those that were squeezed.
* `Row.squeezed`: what tokens in a row are squeezed to.
-/
namespace MarkupTemplate

open Text (slice)

variable {text s : List Char} {t u z : Token} {ts us : List Token}

/-! ## Moved tokens -/

/-- The same token somewhere else. -/
def Token.Moved (t u : Token) : Prop := ∃ m n, t.shift m = u.shift n

namespace Token.Moved

theorem kind (h : t.Moved u) : u.kind = t.kind := by
  obtain ⟨m, n, h⟩ := h
  simpa using congrArg Token.kind h.symm

theorem shift (h : t.Moved u) (k : Nat) : t.Moved (u.shift k) := by
  obtain ⟨m, n, h⟩ := h
  refine ⟨m + k, n, ?_⟩
  rw [← Token.shift_shift, h, Token.shift_shift, Token.shift_shift, Nat.add_comm]

theorem forall₂_shift (h : List.Forall₂ Token.Moved ts us) (k : Nat) :
    List.Forall₂ Token.Moved ts (us.map (Token.shift k)) :=
  List.forall₂_map_right_iff.mpr (h.imp fun _ _ h => h.shift k)

end Token.Moved

/-! ## Squeezing -/

theorem toList_joinedOf_cons (text : List Char) (t : Token) (ts : List Token) :
    (joinedOf text (t :: ts)).toList
      = slice text t.pos t.stop ++ Cursor.joinedAfter text t.stop ts := by
  simp [joinedOf, Cursor.joined, Cursor.ofTokens]

theorem toList_joinedOf_singleton (text : List Char) (t : Token) :
    (joinedOf text [t]).toList = slice text t.pos t.stop := by
  rw [toList_joinedOf_cons, Cursor.joinedAfter, List.append_nil]

theorem toList_joinedOf_cons_cons (text : List Char) (t u : Token) (ts : List Token) :
    (joinedOf text (t :: u :: ts)).toList = slice text t.pos t.stop
      ++ ((if t.stop < u.pos then [' '] else []) ++ (joinedOf text (u :: ts)).toList) := by
  rw [toList_joinedOf_cons, toList_joinedOf_cons, Cursor.joinedAfter, List.append_assoc]

/-- Across a gap, tokens are squeezed with one blank between them. -/
theorem joinedOf_append (ht : ts.getLast? = some t) (hu : us.head? = some u) (h : t.stop < u.pos) :
    (joinedOf text (ts ++ us)).toList
      = (joinedOf text ts).toList ++ ' ' :: (joinedOf text us).toList := by
  obtain ⟨us, rfl⟩ := List.head?_eq_some_iff.mp hu
  induction ts with
  | nil => cases ht
  | cons x ts ih =>
    cases ts with
    | nil =>
      obtain rfl : x = t := Option.some.inj ht
      rw [List.singleton_append, toList_joinedOf_cons_cons, if_pos h, toList_joinedOf_singleton]
      rfl
    | cons y ts =>
      rw [List.getLast?_cons_cons] at ht
      rw [List.cons_append, List.cons_append, toList_joinedOf_cons_cons, toList_joinedOf_cons_cons,
        ← List.cons_append, ih ht]
      simp

/-- Touching tokens are written as they stand. -/
theorem joinedOf_touching (hc : (t :: ts).IsChain fun x y => x.stop = y.pos)
    (hp : ∀ x ∈ t :: ts, x.pos ≤ x.stop) (hz : (t :: ts).getLast? = some z) :
    t.pos ≤ z.stop ∧ (joinedOf text (t :: ts)).toList = slice text t.pos z.stop := by
  induction ts generalizing t with
  | nil =>
    obtain rfl : t = z := Option.some.inj hz
    exact ⟨hp t List.mem_cons_self, toList_joinedOf_singleton text t⟩
  | cons u ts ih =>
    rw [List.getLast?_cons_cons] at hz
    obtain ⟨htu, hc⟩ := List.isChain_cons_cons.mp hc
    obtain ⟨ht, hp⟩ := List.forall_mem_cons.mp hp
    obtain ⟨hle, he⟩ := ih hc hp hz
    refine ⟨by omega, ?_⟩
    rw [toList_joinedOf_cons_cons, if_neg (by omega), he, List.nil_append, ← htu,
      Text.slice_append ht (htu ▸ hle)]

/-- Tokens of a piece of text are squeezed to the same wherever the piece stands. -/
theorem joinedOf_shift (before s after : List Char) :
    joinedOf (before ++ s ++ after) ((tokensOf s).map (Token.shift before.length))
      = joinedOf s (tokensOf s) := by
  refine Window.joined_eq (W := ⟨[], s, [], before, after⟩)
    (by simp [Window.source, Cursor.ofTokens]) rfl (Window.sameAll_of_map ?_ fun t ht => ?_)
  · simp [Window.Moves]
  · simpa using placed_tokensOf s t ht

/-- A text has some tokens, up to where they stand, and is what they are squeezed to. -/
structure Squeezed (ts : List Token) (s : List Char) : Prop where
  scans : Scans s
  tokens : List.Forall₂ Token.Moved ts (tokensOf s)
  joined : (joinedOf s (tokensOf s)).toList = s

namespace Squeezed

theorem nil : Squeezed [] [] := by
  have h : tokensOf [] = [] := by
    rw [tokensOf, atomsOf_of_scan (s := []) (by cbv), classify]
  exact ⟨scans_nil, by rw [h]; exact .nil, by rw [h]; rfl⟩

theorem tokensOf_ne_nil (h : Squeezed ts s) (hne : ts ≠ []) : tokensOf s ≠ [] := by
  intro hn
  have := h.tokens
  rw [hn, List.forall₂_nil_right_iff] at this
  exact hne this

/-- What two lists of tokens are squeezed to, with a blank between them, is what all are squeezed
to. -/
theorem append {s' : List Char} (h : Squeezed ts s) (h' : Squeezed us s') (hts : ts ≠ [])
    (hus : us ≠ []) : Squeezed (ts ++ us) (s ++ ' ' :: s') := by
  obtain ⟨z, hz⟩ : ∃ z, (tokensOf s).getLast? = some z :=
    ⟨_, List.getLast?_eq_some_getLast (h.tokensOf_ne_nil hts)⟩
  obtain ⟨a, ha⟩ : ∃ a, (tokensOf s').head? = some a :=
    ⟨_, List.head?_eq_some_head (h'.tokensOf_ne_nil hus)⟩
  have hblank : Scans (" ".toList ++ s') := .append (seam_blank s') scans_blank h'.scans
  have hseam : Text.Seam s (" ".toList ++ s') := .of_head isBoundary_blank
  have hmeets : Meets s (" ".toList ++ s') := by
    refine ⟨hseam, .of_gap (n := s.length) (fun a ha => (within_atomsOf s a ha).stop_le) ?_⟩
    rw [atomsOf_blank_append h'.scans]
    simp only [List.mem_map]
    rintro _ ⟨_, ⟨a, -, rfl⟩, rfl⟩
    simp only [Atom.pos_shift]
    omega
  have htokens : tokensOf (s ++ ' ' :: s')
      = tokensOf s ++ (tokensOf s').map (Token.shift (s.length + 1)) := by
    have := tokensOf_append hmeets h.scans hblank
    rwa [tokensOf_blank_append h'.scans, Token.map_shift_shift, Nat.add_comm 1] at this
  refine ⟨.append hseam h.scans hblank, ?_, ?_⟩
  · rw [htokens]
    exact List.rel_append h.tokens (Token.Moved.forall₂_shift h'.tokens _)
  · have hgap : z.stop < (a.shift (s.length + 1)).pos := by
      have := (placed_tokensOf s z (List.mem_of_getLast? hz)).stop_le
      rw [Token.pos_shift]
      omega
    have hfirst := joinedOf_shift [] s (' ' :: s')
    have hsecond := joinedOf_shift (s ++ [' ']) s' []
    simp only [List.nil_append, List.length_nil, Token.map_shift_zero, List.append_nil,
      List.append_assoc, List.length_append, List.length_singleton, List.singleton_append]
      at hfirst hsecond
    rw [htokens, joinedOf_append hz (by rw [List.head?_map, ha]; rfl) hgap, hfirst, hsecond,
      h.joined, h'.joined]

end Squeezed

/-! ## Tokens in a row -/

namespace Row

variable {xs ts us ys : List Token}

/-- Touching tokens of a row that what stands before them does not mark are squeezed to the text
that they have. -/
theorem squeezed_touching (h : Row text xs ts ys) (hc : ts.IsChain fun x y => x.stop = y.pos)
    (ht : ts.head? = some t)
    (hd : ∀ c ∈ (text.take t.pos).getLast?, Scan.isWordPart c = false) :
    Squeezed ts (joinedOf text ts).toList := by
  obtain ⟨B, A, C, hl, -, rfl, -⟩ := h.atoms
  obtain ⟨t', z, a, b, ht', hz, ha, hb, hpos, hstop⟩ :=
    ends_of_classify (List.ne_nil_of_mem (List.mem_of_head? ht))
  obtain rfl : t = t' := Option.some.inj (ht.symm.trans ht')
  obtain ⟨ts, hts⟩ := List.head?_eq_some_iff.mp ht
  have hn := hl.neighbours ha hb
  obtain ⟨atoms, hscan, hatoms⟩ := hl.scan_slice ha hb
    (Literal.detached_of_last (by rwa [List.head?_reverse, hpos]))
  have hjoined : (joinedOf text (classify A)).toList = slice text a.pos b.stop := by
    rw [hts, hpos, hstop]
    exact (joinedOf_touching (hts ▸ hc)
      (hts ▸ fun x hx => Nat.le_of_lt (h.pos_lt_stop hx)) (hts ▸ hz)).2
  have htokens : (tokensOf (slice text a.pos b.stop)).map (Token.shift a.pos) = classify A := by
    rw [tokensOf, atomsOf_of_scan hscan, ← classify_shift, hatoms]
  -- the text is the piece between what stands before and behind it
  have htext : text.take a.pos ++ slice text a.pos b.stop ++ text.drop b.stop = text := by
    rw [Text.take_append_slice (Nat.le_of_lt hn.lt), List.take_append_drop]
  have hlen : (text.take a.pos).length = a.pos := by
    have := hn.lt
    have := hn.le_length
    rw [List.length_take]
    omega
  rw [hjoined]
  refine ⟨⟨atoms, hscan⟩, ?_, ?_⟩
  · rw [← htokens, List.forall₂_map_left_iff]
    exact List.forall₂_same.mpr fun x _ => ⟨0, a.pos, Token.shift_zero _⟩
  · have := joinedOf_shift (text.take a.pos) (slice text a.pos b.stop) (text.drop b.stop)
    rw [htext, hlen, htokens] at this
    rw [← this, hjoined]

/-- Behind a marker no literal is marked. -/
theorem not_isWordPart_of_marker {m : List Char × TokenKind} (h : Row text xs [t] ys)
    (hm : m ∈ markers) (hk : t.kind = m.2) :
    ∀ c ∈ (text.take t.stop).getLast?, Scan.isWordPart c = false := by
  obtain ⟨B, A, C, hl, hA⟩ := h.makes
  obtain ⟨hlen, hs⟩ := hA.of_marker hm hk
  obtain ⟨⟨a, ha, -⟩, -⟩ := hA.spans
  obtain ⟨c, pos, hc, hlast⟩ :=
    last_of_spelled? hs hlen (List.ne_nil_of_mem (List.mem_of_head? ha))
  have hmem : Atom.leaf .punct c.toString pos t.stop ∈ B ++ (A ++ C) :=
    List.mem_append_right B (List.mem_append_left C (List.mem_of_getLast? hlast))
  obtain ⟨lo, hi, -, hp, -⟩ := hl.partition
  have hlt : pos < t.stop := (hp.bounds _ hmem).2.1
  have hall : markers.all (fun m => m.1.all fun c => !Scan.isWordPart c) = true := by
    decide
  intro d hd
  rw [← Text.take_append_slice (Nat.le_of_lt hlt), hl.slice_of_punct hmem] at hd
  obtain rfl : c = d := by simpa [Char.toString] using hd
  simpa using List.all_eq_true.mp (List.all_eq_true.mp hall _ hm) c hc

/-- Behind a gap no literal is marked. -/
theorem not_isWordPart_of_gap (h : Row text (xs ++ [t]) (u :: us) ys) (hne : t.stop ≠ u.pos) :
    t.stop < u.pos ∧ ∀ c ∈ (text.take u.pos).getLast?, Scan.isWordPart c = false := by
  have hrow : Row text xs (t :: u :: us) ys := by
    have := h.widen
    rwa [List.singleton_append] at this
  have hle : t.stop ≤ u.pos :=
    stop_le_pos (show Row text xs ([t] ++ u :: us) ys from hrow) List.mem_cons_self
      List.mem_cons_self
  refine ⟨by omega, fun c hc => ?_⟩
  obtain ⟨d, hd, hb⟩ := hrow.blank_between (i := u.pos - 1) (by omega) (by omega)
  rw [List.getLast?_take, if_neg (by omega), Option.mem_def.mp hd, Option.some_or] at hc
  rw [← Option.some.inj hc]
  exact Text.isWordPart_of_isBoundary (Text.isBoundary_of_isBlank hb)

/-- Runs of touching tokens with gaps between them. -/
theorem squeezed_flatten {runs : List (List Token)} (hne : [] ∉ runs)
    (hruns : ∀ run ∈ runs, run.IsChain fun x y => x.stop = y.pos)
    (hgaps : runs.IsChain fun run next => ∃ ha hb, (run.getLast ha).stop ≠ (next.head hb).pos)
    (h : Row text xs runs.flatten ys)
    (hd : ∀ t ∈ runs.flatten.head?, ∀ c ∈ (text.take t.pos).getLast?, Scan.isWordPart c = false) :
    Squeezed runs.flatten (joinedOf text runs.flatten).toList := by
  induction runs generalizing xs with
  | nil => exact .nil
  | cons run runs ih =>
    obtain ⟨hrun, hne'⟩ := not_or.mp (mt List.mem_cons.mpr hne)
    obtain ⟨hchain, hruns'⟩ := List.forall_mem_cons.mp hruns
    rw [List.flatten_cons] at h hd ⊢
    obtain ⟨t, ts, rfl⟩ := List.exists_cons_of_ne_nil (Ne.symm hrun)
    have hfirst := h.left.squeezed_touching hchain rfl (hd t rfl)
    cases runs with
    | nil => rwa [List.flatten_nil, List.append_nil]
    | cons next runs =>
      obtain ⟨hnext, -⟩ := not_or.mp (mt List.mem_cons.mpr hne')
      obtain ⟨u, us, rfl⟩ := List.exists_cons_of_ne_nil (Ne.symm hnext)
      obtain ⟨⟨hz, _, hgap⟩, hgaps'⟩ := List.isChain_cons_cons.mp hgaps
      have hsplit := List.dropLast_append_getLast hz
      have hlast : Row text (xs ++ (t :: ts).dropLast ++ [(t :: ts).getLast hz])
          (u :: (us ++ runs.flatten)) ys := by
        rw [List.append_assoc, hsplit]
        exact h.right
      obtain ⟨hlt, hdet⟩ := not_isWordPart_of_gap hlast hgap
      have hrest := ih hne' hruns' hgaps' h.right (by simpa using hdet)
      rw [joinedOf_append (List.getLast?_eq_some_getLast hz) (by simp) hlt]
      exact hfirst.append hrest (List.cons_ne_nil _ _) (by simp)

/-- Tokens in a row of which the first is not marked by what stands before it are squeezed to a text
that has the same tokens. -/
theorem squeezed (h : Row text xs ts ys)
    (hd : ∀ t ∈ ts.head?, ∀ c ∈ (text.take t.pos).getLast?, Scan.isWordPart c = false) :
    Squeezed ts (joinedOf text ts).toList := by
  have hflat := List.flatten_splitBy (fun x y : Token => x.stop == y.pos) ts
  rw [← hflat] at h hd ⊢
  exact squeezed_flatten (List.nil_notMem_splitBy _ ts)
    (fun run hr => by simpa using List.isChain_of_mem_splitBy hr)
    ((List.isChain_getLast_head_splitBy _ ts).imp
      fun run next ⟨ha, hb, he⟩ => ⟨ha, hb, by simpa using he⟩) h hd

end Row

end MarkupTemplate
