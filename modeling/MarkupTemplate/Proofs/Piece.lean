import Mathlib
import MarkupTemplate.Proofs.Node.Tracks

/-!
# Pieces of text

A text that can be scanned has the same tokens wherever it stands between seams, and a reader that
takes all of them takes all of them there too.

* `tokensOf`: the tokens of a text; `Meets`: two texts that no atom and no marker joins.
* `tokensOf_append`: the tokens of two texts that meet.
* `Items`: a reader taken again and again; `Yields`: it takes all tokens of a text that way.
* `Yields.run`: what a text yields, it yields wherever it stands.
-/
namespace MarkupTemplate

open Cursor

/-! ## Tokens of a text -/

/-- A text that can be scanned. -/
def Scans (s : List Char) : Prop := ∃ as, scan s 0 = .ok as

/-- The atoms of a text, none when it cannot be scanned. -/
def atomsOf (s : List Char) : List Atom :=
  match scan s 0 with
  | .ok as => as
  | .error _ => []

/-- The tokens of a text, none when it cannot be scanned. -/
def tokensOf (s : List Char) : List Token := classify (atomsOf s)

theorem atomsOf_of_scan {s : List Char} {as : List Atom} (h : scan s 0 = .ok as) :
    atomsOf s = as := by
  rw [atomsOf, h]

theorem Scans.scan_eq {s : List Char} (h : Scans s) : scan s 0 = .ok (atomsOf s) := by
  obtain ⟨as, h⟩ := h
  rw [atomsOf_of_scan h, h]

theorem within_atomsOf (s : List Char) : ∀ a ∈ atomsOf s, a.Within 0 s.length := by
  unfold atomsOf
  split
  · next as h =>
    obtain ⟨q, hq, hend⟩ := scan_eq_ok_iff_passes.mp h
    obtain ⟨u, hu, hqu⟩ := hq.span
    refine hq.within (Nat.zero_le _) ?_
    rw [hqu, Place.advance_pos hu, Place.start_pos]
    rw [Place.start_rest, hend, List.append_nil] at hu
    rw [hu]
    omega
  · simp

theorem placed_tokensOf (s : List Char) : ∀ t ∈ tokensOf s, t.Placed 0 s.length :=
  classify_placed (within_atomsOf s)

theorem scans_nil : Scans [] := ⟨[], by cbv⟩

/-- No atom goes across from the first text to the second, and no marker. -/
structure Meets (a b : List Char) : Prop where
  seam : Text.Seam a b
  apart : Apart (atomsOf a) ((atomsOf b).map (Atom.shift a.length))

theorem Scans.append {a b : List Char} (hs : Text.Seam a b) (ha : Scans a) (hb : Scans b) :
    Scans (a ++ b) := ⟨_, scan_append hs ha.scan_eq hb.scan_eq⟩

theorem atomsOf_append {a b : List Char} (hs : Text.Seam a b) (ha : Scans a) (hb : Scans b) :
    atomsOf (a ++ b) = atomsOf a ++ (atomsOf b).map (Atom.shift a.length) :=
  atomsOf_of_scan (scan_append hs ha.scan_eq hb.scan_eq)

/-- The last atom of two texts is that of the second. -/
theorem getLast?_atomsOf_append {a b : List Char} (hs : Text.Seam a b) (ha : Scans a) (hb : Scans b)
    {x : Atom} (h : (atomsOf b).getLast? = some x) :
    (atomsOf (a ++ b)).getLast? = some (x.shift a.length) := by
  rw [atomsOf_append hs ha hb, List.getLast?_append, List.getLast?_map, h]
  rfl

/-- The tokens of two texts that meet are the tokens of each. -/
theorem tokensOf_append {a b : List Char} (h : Meets a b) (ha : Scans a) (hb : Scans b) :
    tokensOf (a ++ b) = tokensOf a ++ (tokensOf b).map (Token.shift a.length) := by
  rw [tokensOf, atomsOf_append h.seam ha hb, classify_append h.apart, classify_shift]
  rfl

/-! ## Readers on a text -/

/-- The cursor before the first token of a text. -/
def Cursor.ofText (s : List Char) : Cursor := ofTokens s (tokensOf s)

/-- The cursor has a text before it that stands behind `before` and before `after`, and then the
tokens `tail`. -/
structure Cursor.At (c : Cursor) (before s after : List Char) (tail : List Token) : Prop where
  source : c.source = before ++ s ++ after
  ahead : c.ahead = (tokensOf s).map (Token.shift before.length) ++ tail

theorem Cursor.at_ofText (s : List Char) : (Cursor.ofText s).At [] s [] [] := by
  constructor <;> simp [ofText, ofTokens]

theorem Cursor.At.embeds {c : Cursor} {before s after : List Char} {tail : List Token}
    (h : c.At before s after tail) :
    (Window.mk [] s [] before after).Embeds tail (Cursor.ofText s) c := by
  refine ⟨by simp [ofText, ofTokens, Window.source], h.source, _, h.ahead, ?_⟩
  refine Window.sameAll_of_map ?_ ?_
  · simp [Window.Moves, ofText, ofTokens]
  · intro t ht
    simpa using placed_tokensOf s t ht

/-- A text that fills a group is the text by itself. -/
theorem Cursor.At.embeds_ofText {c : Cursor} {before s after : List Char}
    (h : c.At before s after []) :
    (Window.mk before s after [] []).Embeds [] c (Cursor.ofText s) := by
  refine ⟨h.source, by simp [ofText, ofTokens, Window.source'], tokensOf s, ?_, ?_⟩
  · simp [ofText, ofTokens]
  rw [h.ahead, List.append_nil]
  refine Window.sameAll_of_map ?_ ?_
  · simp [Window.Moves]
  · intro t ht
    obtain ⟨u, hu, rfl⟩ := List.mem_map.mp ht
    have hplaced := (placed_tokensOf s u hu).shift before.length
    rw [Nat.zero_add, Nat.add_comm] at hplaced
    exact hplaced

/-- Before a text that can be cut at a seam, the cursor has the first part before it. -/
theorem Cursor.At.left {c : Cursor} {before a b after : List Char} {tail : List Token}
    (h : c.At before (a ++ b) after tail) (hm : Meets a b) (ha : Scans a) (hb : Scans b) :
    c.At before a (b ++ after)
      ((tokensOf b).map (Token.shift (before.length + a.length)) ++ tail) := by
  refine ⟨by rw [h.source]; simp, ?_⟩
  rw [h.ahead, tokensOf_append hm ha hb, List.map_append, Token.map_shift_shift, Nat.add_comm,
    List.append_assoc]

/-- Behind the first part of a text, the cursor has the rest of it before it. -/
theorem Cursor.At.right {c d : Cursor} {before a b after : List Char} {tail : List Token}
    (h : c.At before (a ++ b) after tail) (hs : d.source = c.source)
    (ha : d.ahead = (tokensOf b).map (Token.shift (before.length + a.length)) ++ tail) :
    d.At (before ++ a) b after tail := by
  refine ⟨by rw [hs, h.source]; simp, ?_⟩
  rw [ha, List.length_append]

/-- The nodes, or whatever a reader takes, from one cursor to another. -/
inductive Items {α : Type} (r : Reader α) : Cursor → List α → Cursor → Prop where
  | nil {c : Cursor} : Items r c [] c
  | cons {c d e : Cursor} {a : α} {as : List α} (h : r c = .ok a d) (hs : Items r d as e) :
      Items r c (a :: as) e

/-- The reader, taken again and again, takes all tokens of the text and finds `xs`. -/
def Yields {α : Type} (r : Reader α) (s : List Char) (xs : List α) : Prop :=
  Scans s ∧ ∃ d, Items r (Cursor.ofText s) xs d ∧ d.ahead = []

/-- A reader that finds the same, shifted, in every text in which its piece stands; `P` says what
may stand behind the piece. -/
structure Local {α : Type} (P : Window → List Token → Prop) (shift : Nat → α → α)
    (r : Reader α) : Prop where
  zero : ∀ a, shift 0 a = a
  tracks : ∀ {W : Window} {tail : List Token} {c c' : Cursor}, P W tail → W.Embeds tail c c' →
    W.Tracks tail c c' (W.Moves shift) r r

variable {α : Type} {r : Reader α} {shift : Nat → α → α} {P : Window → List Token → Prop}

theorem Items.append {c d e : Cursor} {xs ys : List α} (h : Items r c xs d) (hs : Items r d ys e) :
    Items r c (xs ++ ys) e := by
  induction h with
  | nil => exact hs
  | cons h _ ih => exact .cons h (ih hs)

theorem Items.tracks (hr : Local P shift r) {W : Window} {tail : List Token} (hP : P W tail)
    {c d : Cursor} {xs : List α} (h : Items r c xs d) : ∀ {c' : Cursor}, W.Embeds tail c c' →
      ∃ xs' d', Items r c' xs' d' ∧ W.Moves (fun n => List.map (shift n)) xs xs'
        ∧ W.Embeds tail d d' := by
  induction h with
  | nil => exact fun hE => ⟨[], _, .nil, rfl, hE⟩
  | cons h _ ih =>
    intro c' hE
    obtain ⟨a', d', ha', hm, hE⟩ := hr.tracks hP hE _ _ h
    obtain ⟨xs', e', hxs', hms, hE⟩ := ih hE
    exact ⟨a' :: xs', e', .cons ha' hxs', List.cons_eq_cons.mpr ⟨hm, hms⟩, hE⟩

theorem ahead_eq_of_embeds {W : Window} {tail : List Token} {c c' : Cursor}
    (h : W.Embeds tail c c') (hc : c.ahead = []) : c'.ahead = tail := by
  rcases h.cases with ⟨-, hc'⟩ | ⟨t, ts, t', ts', ht, -⟩
  · exact hc'
  · rw [hc] at ht; cases ht

/-- What a text yields, it yields wherever it stands, shifted. -/
theorem Yields.run (hr : Local P shift r) {s : List Char} {xs : List α} (h : Yields r s xs)
    {c : Cursor} {before after : List Char} {tail : List Token} (hc : c.At before s after tail)
    (hP : P ⟨[], s, [], before, after⟩ tail) :
    ∃ d, Items r c (xs.map (shift before.length)) d ∧ d.source = c.source ∧ d.ahead = tail := by
  obtain ⟨-, d, hd, hnil⟩ := h
  obtain ⟨xs', d', hd', hm, hE⟩ := hd.tracks hr hP hc.embeds
  have hxs' : xs' = xs.map (shift before.length) := by
    simp only [Window.Moves, List.length_nil] at hm
    rw [map_eq_self hr.zero] at hm
    exact hm
  exact ⟨d', hxs' ▸ hd', hE.source'.trans hc.source.symm, ahead_eq_of_embeds hE hnil⟩

/-! ## Items of a document -/

namespace Node

/-- Takes a node or a closing tag that belongs to no element. -/
def readItem : Reader Node := fun c =>
  if c.isAt .closeTag then (do
    let name ← readCloseTag
    return .text ("</" ++ name ++ ">") : Reader Node) c
  else readNode c

theorem readNode_fails {c : Cursor} (h : c.isAt .endOfInput = true ∨ c.isAt .closeTag = true)
    {node : Node} {d : Cursor} : readNode c ≠ .ok node d := by
  intro hn
  rw [readNode_eq] at hn
  have hk : ∀ kind, kind ≠ .keyword → kind ≠ .punct → c.head.kind = kind →
      ∀ value, c.head.has .punct value = false ∧ c.head.has .keyword value = false := by
    intro kind h₁ h₂ hk value
    simp [Token.has, hk, h₁, h₂]
  rcases h with h | h
  all_goals
    have hkind := beq_iff_eq.mp h
    have hno := hk _ (by decide) (by decide) hkind
    rw [hkind] at hn
    simp only [readControl, (hno _).1, (hno _).2, Bool.false_eq_true, if_false] at hn
    exact Window.failAt_ne_ok hn

theorem readItem_fails {c : Cursor} (h : c.isAt .endOfInput = true) {node : Node} {d : Cursor} :
    readItem c ≠ .ok node d := by
  have hno : c.isAt .closeTag = false := by
    rw [isAt, beq_iff_eq] at h
    rw [isAt, h]
    rfl
  rw [readItem, hno]
  exact readNode_fails (.inl h)

/-- An item is a closing tag that belongs to no element, or a node. -/
theorem readItem_eq_ok_iff {c d : Cursor} {node : Node} : readItem c = .ok node d ↔
    (c.isAt .closeTag = true
      ∧ ∃ name, readCloseTag c = .ok name d ∧ node = .text ("</" ++ name ++ ">"))
    ∨ (c.isAt .closeTag = false ∧ readNode c = .ok node d) := by
  rw [readItem]
  cases c.isAt .closeTag with
  | false => simp
  | true =>
    simp only [if_true, true_and, Bool.true_eq_false, false_and, or_false]
    constructor
    · intro h
      obtain ⟨name, e, hname, h⟩ := Window.bind_eq_ok h
      injection h with h₁ h₂
      subst h₁ h₂
      exact ⟨name, hname, rfl⟩
    · rintro ⟨name, hname, rfl⟩
      rw [Window.bind_of_ok hname]
      rfl

theorem lt_of_readItem {c d : Cursor} {node : Node} (h : readItem c = .ok node d) :
    sizeOf d.ahead < sizeOf c.ahead := by
  obtain ⟨-, name, hname, -⟩ | ⟨-, h⟩ := readItem_eq_ok_iff.mp h
  · exact Window.lt_of_advances advances_readCloseTag hname
  · exact Window.lt_of_readNode h

/-- The nodes of a document that is not at its end are an item and the nodes behind it. -/
theorem readNodes_none_eq_item {c : Cursor} (h : c.isAt .endOfInput = false) :
    readNodes none c
      = (readItem >>= fun node => readNodes none >>= fun nodes => pure (node :: nodes)) c := by
  rw [readNodes_none_eq, h, if_neg Bool.false_ne_true]
  cases hclose : c.isAt .closeTag with
  | false =>
    have hitem : readItem c = readNode c := by rw [readItem, hclose]; rfl
    cases hnode : readNode c with
    | error f d =>
      rw [if_neg Bool.false_ne_true, Window.bind_of_error hnode,
        Window.bind_of_error (hitem.trans hnode)]
    | ok node d =>
      rw [if_neg Bool.false_ne_true, Window.bind_of_ok hnode,
        Window.bind_of_ok (hitem.trans hnode)]
  | true =>
    rw [if_pos rfl]
    cases hname : readCloseTag c with
    | error f d =>
      have hitem : readItem c = .error f d := by
        rw [readItem, if_pos hclose, Window.bind_of_error hname]
      rw [Window.bind_of_error hname, Window.bind_of_error hitem]
    | ok name d =>
      have hitem : readItem c = .ok (.text ("</" ++ name ++ ">")) d :=
        readItem_eq_ok_iff.mpr (.inl ⟨hclose, name, hname, rfl⟩)
      rw [Window.bind_of_ok hname, Window.bind_of_ok hitem]

end Node

open Node

/-- The nodes of a document are its items up to the end. -/
theorem readNodes_none_ok_iff {c d : Cursor} {nodes : List Node} :
    readNodes none c = .ok nodes d ↔ Items readItem c nodes d ∧ d.isAt .endOfInput = true := by
  constructor
  · induction hn : sizeOf c.ahead using Nat.strongRecOn generalizing c nodes with
    | ind n ih =>
      subst hn
      intro h
      cases hend : c.isAt .endOfInput with
      | true =>
        rw [readNodes_none_eq, if_pos hend] at h
        injection h with h₁ h₂
        subst h₁ h₂
        exact ⟨.nil, hend⟩
      | false =>
        rw [readNodes_none_eq_item hend] at h
        obtain ⟨node, e, hitem, h⟩ := Window.bind_eq_ok h
        obtain ⟨rest, f, hrest, h⟩ := Window.bind_eq_ok h
        injection h with h₁ h₂
        subst h₁ h₂
        obtain ⟨hitems, hstop⟩ := ih _ (lt_of_readItem hitem) rfl hrest
        exact ⟨.cons hitem hitems, hstop⟩
  · rintro ⟨h, hend⟩
    induction h with
    | nil => rw [readNodes_none_eq, if_pos hend]; rfl
    | @cons c d e node nodes h hs ih =>
      have hno : c.isAt .endOfInput = false := Bool.eq_false_iff.mpr fun hc => readItem_fails hc h
      rw [readNodes_none_eq_item hno, Window.bind_of_ok h, Window.bind_of_ok (ih hend)]
      rfl

/-- The nodes of an element are its nodes up to a closing tag. -/
theorem readNodes_some_of_items {t : Token} {c d : Cursor} {nodes : List Node}
    (h : Items readNode c nodes d) (hd : d.isAt .closeTag = true) :
    readNodes (some t) c = .ok nodes d := by
  induction h with
  | @nil c =>
    have hno : ¬ c.isAt .endOfInput = true := by
      rw [isAt, beq_iff_eq] at hd ⊢
      rw [hd]
      decide
    rw [readNodes_some_eq, if_neg hno, if_pos hd]; rfl
  | @cons c d e node nodes h hs ih =>
    have hno : ¬ c.isAt .endOfInput = true := fun hc => readNode_fails (.inl hc) h
    have hno' : ¬ c.isAt .closeTag = true := fun hc => readNode_fails (.inr hc) h
    rw [readNodes_some_eq, if_neg hno, if_neg hno', Window.bind_of_ok h,
      Window.bind_of_ok (ih hd)]; rfl

theorem items_readItem {c d : Cursor} {nodes : List Node} (h : Items readNode c nodes d) :
    Items readItem c nodes d := by
  induction h with
  | nil => exact .nil
  | @cons c d e node nodes h _ ih =>
    have hno : ¬ c.isAt .closeTag = true := fun hc => readNode_fails (.inr hc) h
    exact .cons (by rw [readItem, if_neg hno, h]) ih

/-! ## Local readers -/

theorem local_readNode : Local Window.Clear Node.shift readNode :=
  ⟨Node.shift_zero, fun hP hE => Window.tracks_readNode hP hE⟩

theorem local_readItem : Local Window.Clear Node.shift readItem := by
  refine ⟨Node.shift_zero, fun {W tail c c'} hP hE => ?_⟩
  by_cases hne : c.ahead = []
  · have hend : c.isAt .endOfInput = true := by simp [isAt, Window.head_kind_of_nil hne]
    exact .of_fails fun node d => readItem_fails hend
  have hr : ∀ c, readItem c = (if c.isAt .closeTag then (do
      let name ← readCloseTag
      return .text ("</" ++ name ++ ">")) else readNode : Reader Node) c := by
    intro c
    rw [readItem]
    split <;> rfl
  refine .congr (hr c) (hr c') ?_
  rw [hE.isAt hne]
  refine .ite Iff.rfl (fun _ => ?_) fun _ => Window.tracks_readNode hP hE
  refine (Window.tracks_readCloseTag hP.1.1 hE).bind fun name _ name' _ _ hname hE => .pure hE ?_
  rw [← hname]; rfl

theorem local_readName : Local Window.EndsName (fun _ (s : String) => s) readName :=
  ⟨fun _ => rfl, fun hP hE name d h =>
    let ⟨name', d', h', he, hE⟩ := Window.tracks_readName hP hE name d h
    ⟨name', d', h', he.symm, hE⟩⟩

theorem local_readAttribute : Local Window.EndsAttribute Attribute.shift readAttribute :=
  ⟨Attribute.shift_zero, fun hP hE => Window.tracks_readAttribute hP hE⟩

/-! ## Documents -/

theorem isAt_endOfInput_of_items {s : List Char} {nodes : List Node} {d : Cursor}
    (h : Items readItem (Cursor.ofText s) nodes d) :
    d.isAt .endOfInput = true ↔ d.ahead = [] := by
  obtain ⟨-, d', -, -, hE⟩ := h.tracks local_readItem Window.clear_nil (Cursor.at_ofText s).embeds
  exact Window.isAt_endOfInput_iff hE

/-- A text parses when it can be scanned and its nodes can be read. -/
theorem ofText?_ok_iff_readNodes {s : List Char} {doc : Document} :
    Document.ofText? s = .ok doc ↔ Scans s
      ∧ (∃ d, readNodes none (Cursor.ofText s) = .ok doc.nodes d) ∧ doc.source = s := by
  unfold Document.ofText? Document.ofTextFrom?
  constructor
  · intro h
    split at h
    · cases h
    · next as has =>
      have hc : Cursor.ofTokens s (classify as) = Cursor.ofText s := by
        rw [Cursor.ofText, tokensOf, atomsOf_of_scan has]
      rw [hc] at h
      split at h
      · next nodes d hd =>
        obtain rfl := Except.ok.inj h
        exact ⟨⟨as, has⟩, ⟨d, hd⟩, rfl⟩
      · cases h
  · rintro ⟨hs, ⟨d, hd⟩, rfl⟩
    have hd' : readNodes none (Cursor.ofTokens doc.source (classify (atomsOf doc.source)))
        = .ok doc.nodes d := hd
    rw [hs.scan_eq]
    simp only [hd']

/-- A text parses exactly when it yields the nodes of its document. -/
theorem ofText?_ok_iff {s : List Char} {doc : Document} :
    Document.ofText? s = .ok doc ↔ Yields readItem s doc.nodes ∧ doc.source = s := by
  rw [ofText?_ok_iff_readNodes]
  constructor
  · rintro ⟨hs, ⟨d, hd⟩, hdoc⟩
    obtain ⟨hitems, hend⟩ := readNodes_none_ok_iff.mp hd
    exact ⟨⟨hs, d, hitems, (isAt_endOfInput_of_items hitems).mp hend⟩, hdoc⟩
  · rintro ⟨⟨hs, d, hd, hnil⟩, hdoc⟩
    have hend := (isAt_endOfInput_of_items hd).mpr hnil
    exact ⟨hs, ⟨d, readNodes_none_ok_iff.mpr ⟨hd, hend⟩⟩, hdoc⟩

end MarkupTemplate
