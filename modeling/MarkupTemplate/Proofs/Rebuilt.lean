import MarkupTemplate.Proofs.Declaration
import MarkupTemplate.Proofs.Nesting

/-!
# Rebuilt payloads

The payload of a declaration or an instruction is rebuilt from its tokens: their source texts, with
one blank for any gap. Wherever in a text such markup is read, its payload has these tokens again,
the same ones touch, and between two others stands that one blank and nothing else.

* `Cursor.Visits.row`: the tokens ahead of a cursor are in a row of the text.
* `Row.isChain_of_joinedOf_eq`: the gaps of a text that its tokens are squeezed to.
* `isChain_zip_of_joinedOf`: tokens that are squeezed to the same text touch where the others do.
* `Wrapping.rebuilt`: what the tokens of a rebuilt payload are.
-/
namespace MarkupTemplate

open Cursor Node

/-! ## Tokens of a text -/

namespace Cursor.Visits

variable {text : List Char} {c : Cursor}

/-- The tokens ahead of a cursor are in a row, whatever stands before them. -/
theorem row (h : c.Visits text) : ∃ xs, Row text xs c.ahead [] := by
  induction h with
  | @start c h =>
    obtain ⟨as, has⟩ := (start h).scans
    rw [tokenize, has] at h
    obtain rfl := Except.ok.inj h
    exact ⟨[], (row_of_scan has).1⟩
  | @skip c _ n ih =>
    obtain ⟨xs, hrow⟩ := ih
    rw [← c.ahead.take_append_drop n] at hrow
    exact ⟨_, hrow.right⟩
  | @inside c g _ hg ih =>
    obtain ⟨xs, hrow⟩ := ih
    by_cases hgroup : g.isGroup = true
    · obtain ⟨_, _, hsingle⟩ := hrow.single hg
      exact ⟨[], hsingle.inside hgroup⟩
    · have hnone : g.children = [] := by
        obtain ⟨as, -, has⟩ := hrow
        have hm : g ∈ classify as := by
          rw [has]
          simp [hg]
        rcases mem_classify hm with ⟨hnone, -⟩ | ⟨b, _, _, _, _, _, rfl⟩
        · exact hnone
        · exact absurd (Token.isGroup_of_kind (b := b) rfl) hgroup
      refine ⟨xs ++ c.ahead, ?_⟩
      change Row text _ g.children []
      rw [hnone]
      rw [← List.append_nil c.ahead] at hrow
      exact hrow.right

theorem real (h : c.Visits text) : c.Real := by
  induction h with
  | @start c h =>
    obtain ⟨as, has⟩ := (start h).scans
    rw [tokenize, has] at h
    obtain rfl := Except.ok.inj h
    refine ⟨0, text.length, fun t ht => placed_tokensOf text t ?_⟩
    rwa [tokensOf, atomsOf_of_scan has]
  | skip _ n ih => exact ih.skip n
  | inside _ hg ih => exact ih.child hg

end Cursor.Visits

/-! ## Gaps of a squeezed text -/

namespace Row

variable {text : List Char} {xs ts ys : List Token} {t u : Token}

theorem stop_le_length (h : Row text xs ts ys) (ht : t ∈ ts) : t.stop ≤ text.length := by
  obtain ⟨_, _, h⟩ := h.single ht
  obtain ⟨B, A, C, hl, hA⟩ := h.makes
  obtain ⟨⟨a, ha, -⟩, z, hz, hstop⟩ := hA.spans
  rw [← hstop]
  exact (hl.neighbours ha hz).le_length

/-- What tokens of a row are squeezed to is no longer than the text from the first of them on. -/
theorem length_joinedOf_le (h : Row text xs (t :: ts) ys) :
    (joinedOf text (t :: ts)).toList.length ≤ text.length - t.pos := by
  induction ts generalizing xs t with
  | nil =>
    have hstop := h.stop_le_length List.mem_cons_self
    rw [toList_joinedOf_singleton, Text.length_slice hstop]
    omega
  | cons u ts ih =>
    have hlt := h.pos_lt_stop List.mem_cons_self
    have hle : t.stop ≤ u.pos :=
      stop_le_pos (show Row text xs ([t] ++ u :: ts) ys from h) List.mem_cons_self
        List.mem_cons_self
    have hlast := h.tail.pos_lt_stop List.mem_cons_self
    have hstop := h.tail.stop_le_length List.mem_cons_self
    have hrest := ih h.tail
    rw [toList_joinedOf_cons_cons, List.length_append, List.length_append,
      Text.length_slice (by omega)]
    split
    · rw [List.length_singleton]
      omega
    · rw [List.length_nil]
      omega

/-- What a row is squeezed to begins with a character that is not blank. -/
theorem head?_joinedOf (h : Row text xs (t :: ts) ys) :
    ∃ c ∈ (joinedOf text (t :: ts)).toList.head?, Text.isBlank c = false := by
  obtain ⟨c, hc, hblank⟩ := h.head.not_isBlank
  refine ⟨c, ?_, hblank⟩
  rw [toList_joinedOf_cons, List.head?_append,
    Text.head?_slice (h.pos_lt_stop List.mem_cons_self), Option.mem_def.mp hc]
  rfl

/-- Tokens that are squeezed to the text from the first of them on touch or have one blank between
them. -/
theorem isChain_of_joinedOf (h : Row text xs (t :: ts) ys)
    (hj : (joinedOf text (t :: ts)).toList = text.drop t.pos) :
    (t :: ts).IsChain fun x y =>
      x.stop = y.pos ∨ x.stop + 1 = y.pos ∧ text[x.stop]? = some ' ' := by
  induction ts generalizing xs t with
  | nil => exact .singleton t
  | cons u ts ih =>
    have hlt := h.pos_lt_stop List.mem_cons_self
    have hle : t.stop ≤ u.pos :=
      stop_le_pos (show Row text xs ([t] ++ u :: ts) ys from h) List.mem_cons_self
        List.mem_cons_self
    have hlast := h.tail.pos_lt_stop List.mem_cons_self
    have hstop := h.tail.stop_le_length List.mem_cons_self
    have hbehind : text.drop t.pos = Text.slice text t.pos t.stop ++ text.drop t.stop := by
      rw [← List.take_append_drop (t.stop - t.pos) (text.drop t.pos), List.drop_drop,
        Nat.add_sub_cancel' (Nat.le_of_lt hlt)]
      rfl
    rw [toList_joinedOf_cons_cons, hbehind] at hj
    have hgap := List.append_cancel_left hj
    split at hgap
    · -- what is squeezed behind the blank would not fit behind a wider gap
      have hblank : text[t.stop]? = some ' ' := by
        rw [← List.head?_drop, ← hgap]
        rfl
      have hrest : (joinedOf text (u :: ts)).toList = text.drop (t.stop + 1) := by
        rw [← List.tail_drop, ← hgap]
        rfl
      have hlength := h.tail.length_joinedOf_le
      rw [hrest, List.length_drop] at hlength
      have hpos : t.stop + 1 = u.pos := by omega
      exact .cons_cons (.inr ⟨hpos, hblank⟩) (ih h.tail (hpos ▸ hrest))
    · have hpos : t.stop = u.pos := by omega
      exact .cons_cons (.inl hpos) (ih h.tail (hpos ▸ hgap))

/-- Tokens that are squeezed to a text of which they are all the tokens touch or have one blank
between them. -/
theorem isChain_of_joinedOf_eq (h : Row text xs ts ys) (hj : (joinedOf text ts).toList = text) :
    ts.IsChain fun x y => x.stop = y.pos ∨ x.stop + 1 = y.pos ∧ text[x.stop]? = some ' ' := by
  cases ts with
  | nil => exact .nil
  | cons t ts =>
    -- the text would be too short if the first of them stood behind its beginning
    have hlength := h.length_joinedOf_le
    have hlt := h.pos_lt_stop List.mem_cons_self
    have hstop := h.stop_le_length List.mem_cons_self
    rw [hj] at hlength
    have hpos : t.pos = 0 := by omega
    exact h.isChain_of_joinedOf (by rw [hj, hpos, List.drop_zero])

end Row

theorem Token.Moved.length_eq {t u : Token} (h : t.Moved u) : t.stop - t.pos = u.stop - u.pos := by
  obtain ⟨m, n, h⟩ := h
  have hpos := congrArg Token.pos h
  have hstop := congrArg Token.stop h
  simp only [Token.pos_shift, Token.stop_shift] at hpos hstop
  omega

theorem Token.Moved.value {t u : Token} (h : t.Moved u) : u.value = t.value := by
  obtain ⟨m, n, h⟩ := h
  simpa using congrArg Token.value h.symm

theorem Token.Moved.map_kind_value {ts us : List Token} (h : List.Forall₂ Token.Moved ts us) :
    us.map (fun t => (t.kind, t.value)) = ts.map (fun t => (t.kind, t.value)) := by
  induction h with
  | nil => rfl
  | cons hm _ ih => rw [List.map_cons, List.map_cons, ih, hm.kind, hm.value]

/-- Where two lists of tokens are squeezed to the same text, the same ones touch. -/
theorem isChain_zip_of_joinedOf {text s : List Char} {xs ts ys xs' ts' ys' : List Token}
    (h : Row text xs ts ys) (h' : Row s xs' ts' ys') (hm : List.Forall₂ Token.Moved ts ts')
    (hj : (joinedOf text ts).toList = (joinedOf s ts').toList) :
    (ts.zip ts').IsChain fun x y => x.1.stop = y.1.pos ↔ x.2.stop = y.2.pos := by
  induction hm generalizing xs xs' with
  | nil => exact .nil
  | @cons t t' ts ts' ht hm ih =>
    cases hm with
    | nil => exact .singleton _
    | @cons u u' ts ts' hu hm =>
      have hle : t.stop ≤ u.pos := Row.stop_le_pos (show Row text xs ([t] ++ u :: ts) ys from h)
        List.mem_cons_self List.mem_cons_self
      have hle' : t'.stop ≤ u'.pos := Row.stop_le_pos
        (show Row s xs' ([t'] ++ u' :: ts') ys' from h') List.mem_cons_self List.mem_cons_self
      have hlength : (Text.slice text t.pos t.stop).length
          = (Text.slice s t'.pos t'.stop).length := by
        rw [Text.length_slice (h.stop_le_length List.mem_cons_self),
          Text.length_slice (h'.stop_le_length List.mem_cons_self), ht.length_eq]
      rw [toList_joinedOf_cons_cons, toList_joinedOf_cons_cons] at hj
      have hrest := (List.append_inj hj hlength).2
      -- a blank in one of them only would be the first character of a token in the other
      obtain ⟨c, hc, hblank⟩ := h.tail.head?_joinedOf
      obtain ⟨c', hc', hblank'⟩ := h'.tail.head?_joinedOf
      have hspace : Text.isBlank ' ' = true := by decide
      have hnone : ∀ {a b : List Char} {d : Char}, ' ' :: a = b → d ∈ b.head? →
          Text.isBlank d = false → False := by
        rintro a _ d rfl hd hb
        cases hd
        rw [hspace] at hb
        cases hb
      split at hrest <;> split at hrest
      · have htouch : t.stop = u.pos ↔ t'.stop = u'.pos := by omega
        exact .cons_cons htouch (ih h.tail h'.tail (List.append_cancel_left hrest))
      · exact (hnone hrest hc' hblank').elim
      · exact (hnone hrest.symm hc hblank).elim
      · have htouch : t.stop = u.pos ↔ t'.stop = u'.pos := by omega
        exact .cons_cons htouch (ih h.tail h'.tail hrest)

namespace Wrapping

/-- The payload of a declaration or an instruction that is read anywhere in a text is the source
texts of its tokens with one blank for any gap. Taken by itself it has the same tokens, each with
its kind, its value and what is in it. Two of them touch in the payload if and only if they touch
in the text; between two others stands one blank and nothing else. And the tokens are squeezed to
the payload again. -/
theorem rebuilt (w : Wrapping) {text : List Char} {c d : Cursor} {p : String}
    (hc : c.Visits text) (h : readNode c = .ok (w.node p) d) :
    ∃ o ts k, c.Takes (o :: (ts ++ [k])) d ∧ o.kind = w.openKind ∧ k.kind = w.closeKind
      ∧ p = joinedOf text ts ∧ Scans p.toList
      ∧ List.Forall₂ Token.Moved ts (tokensOf p.toList)
      ∧ (tokensOf p.toList).map (fun t => (t.kind, t.value)) = ts.map (fun t => (t.kind, t.value))
      ∧ (ts.zip (tokensOf p.toList)).IsChain
        (fun x y => x.1.stop = y.1.pos ↔ x.2.stop = y.2.pos)
      ∧ (tokensOf p.toList).IsChain
        (fun t u => t.stop = u.pos ∨ t.stop + 1 = u.pos ∧ p.toList[t.stop]? = some ' ')
      ∧ joinedOf p.toList (tokensOf p.toList) = p := by
  obtain ⟨o, ts, k, htakes, ho, hk, -, hp⟩ := takes_of_readNode hc.real h
  rw [hc.source_eq] at hp
  obtain ⟨xs, hrow⟩ := hc.row
  rw [htakes.1, List.cons_append, List.append_assoc] at hrow
  have hpayload : Row text (xs ++ [o]) ts ([k] ++ d.ahead ++ []) := hrow.tail.left
  have hsqueezed : Squeezed ts p.toList := by
    rw [hp]
    refine hpayload.squeezed fun t ht => ?_
    obtain ⟨ts, rfl⟩ := List.head?_eq_some_iff.mp ht
    exact not_isWordPart_before hrow ho
  obtain ⟨hagain, -⟩ := row_of_scan hsqueezed.scans.scan_eq
  change Row p.toList [] (tokensOf p.toList) [] at hagain
  have hjoined : (joinedOf text ts).toList = (joinedOf p.toList (tokensOf p.toList)).toList := by
    rw [hsqueezed.joined, hp]
  exact ⟨o, ts, k, htakes, ho, hk, hp, hsqueezed.scans, hsqueezed.tokens,
    Token.Moved.map_kind_value hsqueezed.tokens,
    isChain_zip_of_joinedOf hpayload hagain hsqueezed.tokens hjoined,
    hagain.isChain_of_joinedOf_eq hsqueezed.joined, String.toList_inj.mp hsqueezed.joined⟩

/-- A declaration with gaps of several blanks, of which the last is not kept. -/
theorem rebuilt_declaration :
    ∃ c d, Cursor.Visits "<!a \n [b]  ='c' >".toList c
      ∧ readNode c = .ok (declaration.node "a [b] ='c'") d
      ∧ ∃ ts, "a [b] ='c'" = joinedOf "<!a \n [b]  ='c' >".toList ts
        ∧ (tokensOf "a [b] ='c'".toList).map (fun t => (t.kind, t.value))
          = ts.map (fun t => (t.kind, t.value))
        ∧ joinedOf "a [b] ='c'".toList (tokensOf "a [b] ='c'".toList) = "a [b] ='c'" := by
  have hstart : Cursor.Visits "<!a \n [b]  ='c' >".toList
      (Cursor.ofText "<!a \n [b]  ='c' >".toList) := .start (by cbv)
  obtain ⟨d, hd⟩ : ∃ d, readNode (Cursor.ofText "<!a \n [b]  ='c' >".toList)
      = .ok (declaration.node "a [b] ='c'") d := ⟨_, by cbv⟩
  obtain ⟨_, ts, _, -, -, -, hp, -, -, hvalues, -, -, hagain⟩ := declaration.rebuilt hstart hd
  exact ⟨_, d, hstart, hd, ts, hp, hvalues, hagain⟩

end Wrapping

end MarkupTemplate
