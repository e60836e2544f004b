import MarkupTemplate.Proofs.Piece

/-!
# Texts one after the other

Two texts that parse, with blanks between them, parse to the nodes of the one followed by the nodes
of the other. No look-ahead reaches over the blanks: not those of words, numbers, string literals
and markers, and not those of attributes and branches.

* `readItem_opens`: the first token of a text that parses goes on with nothing before it.
* `ofText?_append_blank`: the concatenation law.
-/
namespace MarkupTemplate

open Cursor Node

/-! ## Blanks -/

theorem reads_of_blank {w : List Char} (hw : ∀ c ∈ w, Text.isBlank c = true) :
    ∀ {p : Place}, p.rest = w → ∃ q, Scan.Reads p [] q ∧ q.rest = [] := by
  induction w with
  | nil => exact fun {p} hp => ⟨p, .stop (by simp [Scan.Stops, hp]), hp⟩
  | cons c w ih =>
    intro p hp
    obtain ⟨hc, hw⟩ := List.forall_mem_cons.mp hw
    obtain ⟨q, hq, hend⟩ := ih hw (Place.advance_one_rest hp)
    exact ⟨q, .blank hp hc hq, hend⟩

theorem scan_of_blank {w : List Char} (hw : ∀ c ∈ w, Text.isBlank c = true) :
    scan w 0 = .ok [] :=
  scan_eq_ok_iff.mpr (reads_of_blank hw (Place.start_rest w))

/-- The atoms of two texts with blanks between them. -/
theorem atomsOf_append_blank {a w b : List Char} (ha : Scans a) (hb : Scans b) (hne : w ≠ [])
    (hw : ∀ c ∈ w, Text.isBlank c = true) : Scans (a ++ w ++ b)
      ∧ atomsOf (a ++ w ++ b)
        = atomsOf a ++ (atomsOf b).map (Atom.shift (a.length + w.length)) := by
  have hsw : Scans w := ⟨[], scan_of_blank hw⟩
  have hseam : Text.Seam a w := by
    obtain ⟨c, w, rfl⟩ := List.exists_cons_of_ne_nil hne
    exact .of_head (Text.isBoundary_of_isBlank (hw c List.mem_cons_self))
  have hseam' : Text.Seam (a ++ w) b := by
    obtain ⟨w, c, rfl⟩ := (List.eq_nil_or_concat w).resolve_left hne
    rw [List.concat_eq_append, ← List.append_assoc]
    exact .of_last (Text.isBoundary_of_isBlank (hw c (by simp)))
  have haw := Scans.append hseam ha hsw
  refine ⟨haw.append hseam' hb, ?_⟩
  rw [atomsOf_append hseam' haw hb, atomsOf_append hseam ha hsw,
    atomsOf_of_scan (scan_of_blank hw), List.length_append]
  simp

theorem tokensOf_append_blank {a w b : List Char} (ha : Scans a) (hb : Scans b) (hne : w ≠ [])
    (hw : ∀ c ∈ w, Text.isBlank c = true) : tokensOf (a ++ w ++ b)
      = tokensOf a ++ (tokensOf b).map (Token.shift (a.length + w.length)) := by
  have hpos := List.length_pos_iff.mpr hne
  have happ : Apart (atomsOf a) ((atomsOf b).map (Atom.shift (a.length + w.length))) := by
    refine .of_gap (n := a.length) (fun x hx => ?_) fun y hy => ?_
    · exact (within_atomsOf a x hx).stop_le
    · obtain ⟨z, -, rfl⟩ := List.mem_map.mp hy
      rw [Atom.pos_shift]
      omega
  rw [tokensOf, (atomsOf_append_blank ha hb hne hw).2, classify_append happ, classify_shift]
  rfl

/-! ## What opens an item -/

/-- The first token of an item goes on with no attribute and no choice before it. -/
theorem readItem_opens {c d : Cursor} {node : Node} (h : readItem c = .ok node d) :
    (c.head.kind = .punct → c.head.value = "|") ∧ c.head.has .keyword "else" = false := by
  obtain ⟨hclose, -⟩ | ⟨-, h⟩ := readItem_eq_ok_iff.mp h
  · have hk := beq_iff_eq.mp hclose
    exact ⟨fun hp => (by rw [hk] at hp; cases hp), by simp [Token.has, hk]⟩
  rw [readNode_eq] at h
  constructor
  · intro hk
    rw [hk] at h
    have hno : ∀ value, c.head.has .keyword value = false := by simp [Token.has, hk]
    simp only [readControl, hno, Bool.false_eq_true, if_false] at h
    split at h
    · next hbar =>
      simp only [Token.has, Bool.and_eq_true, beq_iff_eq] at hbar
      exact hbar.2
    · exact absurd h Window.failAt_ne_ok
  · rw [← Bool.not_eq_true]
    intro helse
    simp only [Token.has, Bool.and_eq_true, beq_iff_eq] at helse
    obtain ⟨hk, hv⟩ := helse
    rw [hk] at h
    simp [readControl, Token.has, hk, hv] at h
    exact Window.failAt_ne_ok h

theorem not_isSeparator {t : Token} (h : t.kind = .punct → t.value = "|") :
    isSeparator t = false := by
  rw [← Bool.not_eq_true]
  intro hs
  simp only [isSeparator, Token.has, Bool.or_eq_true, Bool.and_eq_true, beq_iff_eq] at hs
  obtain ⟨⟨hk, hv⟩ | ⟨hk, hv⟩⟩ | ⟨hk, hv⟩ := hs
  all_goals
    rw [h hk] at hv
    exact absurd hv (by decide)

/-- What yields items stands clear of a piece, with a gap before it. -/
theorem clear_of_yields {W : Window} {s : List Char} {nodes : List Node} {n : Nat}
    (h : Yields readItem s nodes) (hn : W.before'.length + W.text.length < n) :
    W.Clear ((tokensOf s).map (Token.shift n)) := by
  obtain ⟨-, d, hd, hnil⟩ := h
  cases hd with
  | nil =>
    change tokensOf s = [] at hnil
    rw [hnil]
    exact Window.clear_nil
  | cons h _ =>
    have hopens := readItem_opens h
    have hmem : ∀ t ∈ ((tokensOf s).map (Token.shift n)).head?,
        t = (Cursor.ofText s).head.shift n := by
      intro t ht
      cases htokens : tokensOf s with
      | nil => rw [htokens] at ht; cases ht
      | cons u us =>
        rw [htokens] at ht
        rw [Window.head_of_ahead (c := Cursor.ofText s) htokens]
        exact (Option.some.inj ht).symm
    refine ⟨⟨fun t ht => ⟨?_, fun _ => ?_⟩, fun t ht => ?_⟩, fun t ht => ?_⟩
    all_goals rw [hmem t ht]
    · exact not_isSeparator (by simpa using hopens.1)
    · rw [Token.pos_shift]; omega
    · rw [← Bool.not_eq_true]
      intro heq
      simp only [Token.has, Token.kind_shift, Token.value_shift, Bool.and_eq_true,
        beq_iff_eq] at heq
      rw [hopens.1 heq.1] at heq
      exact absurd heq.2 (by decide)
    · simpa [Token.has] using hopens.2

/-! ## Concatenation -/

/-- Two texts that parse, with blanks between them, parse to the nodes of the first and the nodes of
the second, which stand further on. -/
theorem ofText?_append_blank {a w b : List Char} {x y : Document}
    (ha : Document.ofText? a = .ok x) (hb : Document.ofText? b = .ok y) (hne : w ≠ [])
    (hw : ∀ c ∈ w, Text.isBlank c = true) :
    Document.ofText? (a ++ w ++ b)
      = .ok ⟨x.nodes ++ y.nodes.map (Node.shift (a.length + w.length)), a ++ w ++ b⟩ := by
  obtain ⟨hxa, -⟩ := ofText?_ok_iff.mp ha
  obtain ⟨hyb, -⟩ := ofText?_ok_iff.mp hb
  have htokens := tokensOf_append_blank hxa.1 hyb.1 hne hw
  refine ofText?_ok_iff.mpr ⟨⟨(atomsOf_append_blank hxa.1 hyb.1 hne hw).1, ?_⟩, rfl⟩
  have hat : (Cursor.ofText (a ++ w ++ b)).At [] a (w ++ b)
      ((tokensOf b).map (Token.shift (a.length + w.length))) := by
    refine ⟨?_, ?_⟩
    · simp [Cursor.ofText, ofTokens]
    · simpa [Cursor.ofText, ofTokens] using htokens
  obtain ⟨d, hd, hds, hda⟩ := hxa.run local_readItem hat
    (clear_of_yields hyb (by have := List.length_pos_iff.mpr hne; simp; omega))
  have hat' : d.At (a ++ w) b [] [] := by
    refine ⟨?_, ?_⟩
    · rw [hds]; simp [Cursor.ofText, ofTokens]
    · rw [hda]; simp
  obtain ⟨e, he, -, hea⟩ := hyb.run local_readItem hat' Window.clear_nil
  refine ⟨e, ?_, hea⟩
  simpa using hd.append he

/-- No branch of a choice is looked for behind the blanks. -/
theorem ofText?_append_blank_choice :
    Document.ofText? ("if a \x7b\"x\"\x7d".toList ++ " ".toList ++ "\x7bb\x7d".toList)
      = .ok ⟨[.choice [.mk "a" [.text "x"] none 3] none]
          ++ [Node.expression ⟨"b", none, .text, 0⟩].map (Node.shift 11),
        "if a \x7b\"x\"\x7d".toList ++ " ".toList ++ "\x7bb\x7d".toList⟩ := by
  have ha : Document.ofText? "if a \x7b\"x\"\x7d".toList
      = .ok ⟨[.choice [.mk "a" [.text "x"] none 3] none], "if a \x7b\"x\"\x7d".toList⟩ := by cbv
  have hb : Document.ofText? "\x7bb\x7d".toList
      = .ok ⟨[.expression ⟨"b", none, .text, 0⟩], "\x7bb\x7d".toList⟩ := by cbv
  exact ofText?_append_blank ha hb (by decide) (List.all_eq_true.mp (by decide))

end MarkupTemplate
