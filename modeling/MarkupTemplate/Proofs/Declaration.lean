import MarkupTemplate.Host.Run
import MarkupTemplate.Proofs.Node.Derivation
import MarkupTemplate.Proofs.StaticMarkup
import MarkupTemplate.Proofs.Token.Crossing
import MarkupTemplate.Proofs.Token.Layout
import MarkupTemplate.Proofs.Token.Squeezed

/-!
# Declarations and instructions

A declaration and an instruction keep their payload as text: the source texts of its tokens, with
one blank for any gap between them. They are written between their signs without a blank, so the
first and the last characters of a payload may go on with these to another marker. If they do not,
what is written is read as the same node again.

* `Wrapping`: the two kinds of markup, their signs and which tokens may be a payload.
* `Wrapping.ofText?_iff`: the texts that are one such markup.
* `Wrapping.Merges`: the payloads that go on with the signs around them.
* `Wrapping.round_trip`: what such markup is written as, and when that is the same markup again.
-/
namespace MarkupTemplate

open MarkupTemplate.Action Cursor Node

/-- Markup that keeps its payload as text. -/
inductive Wrapping where
  | declaration
  | instruction

namespace Wrapping

/-- The node with a payload. -/
def node : Wrapping → String → Node
  | declaration => .doctype
  | instruction => .instruction

/-- The sign before the payload. -/
def opening : Wrapping → String
  | declaration => "<!"
  | instruction => "<?"

/-- The sign behind the payload. -/
def closing : Wrapping → String
  | declaration => ">"
  | instruction => "?>"

/-- The kind of the token before the payload. -/
def openKind : Wrapping → TokenKind
  | declaration => .declaration
  | instruction => .instruction

/-- The kind of the token behind the payload. -/
def closeKind : Wrapping → TokenKind
  | declaration => .gt
  | instruction => .instructionEnd

/-- What is written for a payload. -/
def text (w : Wrapping) (payload : String) : String := w.opening ++ payload ++ w.closing

/-- Tokens that may be a payload: none of them ends it, and those of a declaration are there and are
not a section of character data. -/
structure Admits (w : Wrapping) (ts : List Token) : Prop where
  open_ : ∀ t ∈ ts, t.kind ≠ w.closeKind
  declares : w = declaration → ts ≠ [] ∧ ∀ t ∈ ts.head?, cdataBody? t = none

end Wrapping

/-! ## Reading -/

section Reading

variable {c d : Cursor} {o k : Token} {ts rest : List Token} {p : String}

namespace Wrapping

variable {w : Wrapping}

/-- A declaration that is no section of character data is read as itself. -/
theorem readDeclaration_of_none (h : cdataBody? (c.peek 1) = none) :
    readDeclaration c = readDoctype c := by
  rw [readDeclaration, Window.bind_of_ok (show (get : Reader Cursor) c = .ok c c from rfl), h]

/-- Tokens that may be a payload are read as one. -/
theorem readNode_of_ahead (hc : c.ahead = o :: (ts ++ k :: rest)) (ho : o.kind = w.openKind)
    (hk : k.kind = w.closeKind) (hts : w.Admits ts) :
    ∃ d, readNode c = .ok (w.node (joinedOf c.source ts)) d ∧ d.ahead = rest := by
  obtain ⟨hopen, hahead⟩ := expectKind_of_ahead hc ho
  have hstop : ∀ t ∈ ts, (t.kind == w.closeKind) = false := by simpa using hts.open_
  have hend : k.kind ≠ .endOfInput := by
    rw [hk]
    cases w <;> decide
  have htake := fun what => takeUntil_of_ahead what hahead hstop (by simp [hk]) hend
  have hlast : (((c.skip 1).skip ts.length).skip 1).ahead = rest := by
    rw [skip, (htake "").2]
    rfl
  refine ⟨_, ?_, hlast⟩
  rw [readNode_eq, Window.head_of_ahead hc, ho]
  cases w with
  | declaration =>
    simp only [openKind, closeKind] at hopen htake
    obtain ⟨hne, hbody⟩ := hts.declares rfl
    obtain ⟨t, ts, rfl⟩ := List.exists_cons_of_ne_nil hne
    have hpeek : cdataBody? (c.peek 1) = none := by
      rw [peek, hc]
      exact hbody t rfl
    change readDeclaration c = _
    rw [readDeclaration_of_none hpeek, readDoctype, Window.bind_of_ok hopen,
      Window.bind_of_ok (htake _).1, Window.bind_of_ok (show next _ = .ok _ _ from rfl)]
    rfl
  | instruction =>
    simp only [openKind, closeKind] at hopen htake
    change readInstruction c = _
    rw [readInstruction, Window.bind_of_ok hopen, Window.bind_of_ok (htake _).1,
      Window.bind_of_ok (show next _ = .ok _ _ from rfl)]
    change EStateM.Result.ok (Node.instruction (Cursor.joined _ ts)) _ = _
    rw [joined_eq_joinedOf]
    rfl

theorem takes_of_readDeclaration (h : readDeclaration c = .ok (.doctype p) d) :
    ∃ o ts k, c.Takes (o :: (ts ++ [k])) d ∧ o.kind = openKind declaration
      ∧ k.kind = closeKind declaration ∧ declaration.Admits ts ∧ p = joinedOf c.source ts := by
  obtain ⟨_, _, hget, h⟩ := Window.bind_eq_ok h
  cases hget
  cases hbody : cdataBody? (c.peek 1) with
  | some body =>
    rw [hbody] at h
    obtain ⟨_, _, -, h⟩ := Window.bind_eq_ok h
    obtain ⟨_, _, -, h⟩ := Window.bind_eq_ok h
    obtain ⟨_, _, -, h⟩ := Window.bind_eq_ok h
    obtain ⟨_, _, -, h⟩ := Window.bind_eq_ok h
    injection h with h _
    cases h
  | none =>
    rw [hbody] at h
    obtain ⟨o, e, ho, h⟩ := Window.bind_eq_ok h
    obtain ⟨ts, f, hts, h⟩ := Window.bind_eq_ok h
    obtain ⟨k, g, hk, h⟩ := Window.bind_eq_ok h
    obtain ⟨t₁, ho⟩ := takes_of_expectKind (by decide) ho
    obtain ⟨t₂, hopen, hstop⟩ := takes_of_takeUntil_next hts hk
    split at h
    · exact absurd h Window.failAt_ne_ok
    next hne =>
    have htakes := t₁.cons t₂
    injection h with h₁ h₂
    injection h₁ with h₁
    rw [joined_eq_joinedOf, htakes.2] at h₁
    subst h₂
    refine ⟨o, ts, k, htakes, ho, by simpa [closeKind] using hstop,
      ⟨by simpa [closeKind] using hopen, fun _ => ?_⟩, h₁.symm⟩
    obtain ⟨t, ts, rfl⟩ := List.exists_cons_of_ne_nil (show ts ≠ [] by simpa using hne)
    refine ⟨List.cons_ne_nil t ts, fun u hu => ?_⟩
    obtain rfl : t = u := Option.some.inj hu
    rwa [peek, htakes.1] at hbody

theorem takes_of_readInstruction (h : readInstruction c = .ok (.instruction p) d) :
    ∃ o ts k, c.Takes (o :: (ts ++ [k])) d ∧ o.kind = openKind instruction
      ∧ k.kind = closeKind instruction ∧ instruction.Admits ts ∧ p = joinedOf c.source ts := by
  obtain ⟨o, e, ho, h⟩ := Window.bind_eq_ok h
  obtain ⟨ts, f, hts, h⟩ := Window.bind_eq_ok h
  obtain ⟨k, g, hk, h⟩ := Window.bind_eq_ok h
  obtain ⟨t₁, ho⟩ := takes_of_expectKind (by decide) ho
  obtain ⟨t₂, hopen, hstop⟩ := takes_of_takeUntil_next hts hk
  have htakes := t₁.cons t₂
  injection h with h₁ h₂
  injection h₁ with h₁
  rw [joined_eq_joinedOf, htakes.2] at h₁
  subst h₂
  exact ⟨o, ts, k, htakes, ho, by simpa [closeKind] using hstop,
    ⟨by simpa [closeKind] using hopen, fun h => by cases h⟩, h₁.symm⟩

/-- What is read as such markup has a payload that may be one. -/
theorem takes_of_readNode (hc : c.Real) (h : readNode c = .ok (w.node p) d) :
    ∃ o ts k, c.Takes (o :: (ts ++ [k])) d ∧ o.kind = w.openKind ∧ k.kind = w.closeKind
      ∧ w.Admits ts ∧ p = joinedOf c.source ts := by
  obtain ⟨us, hus, hd⟩ := derives_of_readNode c hc _ d h
  rw [readNode_eq] at h
  cases w with
  | declaration =>
    cases hd with
    | doctype ho _ _ =>
      rw [Window.head_of_ahead hus.1, ho] at h
      exact takes_of_readDeclaration h
  | instruction =>
    cases hd with
    | instruction ho _ =>
      rw [Window.head_of_ahead hus.1, ho] at h
      exact takes_of_readInstruction h

/-- The texts that are one such markup. -/
theorem ofText?_iff {text : List Char} : Document.ofText? text = .ok ⟨[w.node p], text⟩
    ↔ Scans text ∧ ∃ o ts k, tokensOf text = o :: (ts ++ [k]) ∧ o.kind = w.openKind
      ∧ k.kind = w.closeKind ∧ w.Admits ts ∧ p = joinedOf text ts := by
  rw [ofText?_ok_iff]
  constructor
  · rintro ⟨⟨hs, d, hitems, hnil⟩, -⟩
    refine ⟨hs, ?_⟩
    cases hitems with
    | cons hitem hrest =>
      cases hrest with
      | nil =>
        have hreal : (Cursor.ofText text).Real := ⟨_, _, placed_tokensOf text⟩
        have hnode : readNode (Cursor.ofText text) = .ok (w.node p) d := by
          obtain ⟨-, name, -, h⟩ | ⟨-, h⟩ := readItem_eq_ok_iff.mp hitem
          · cases w <;> cases h
          · exact h
        obtain ⟨o, ts, k, htakes, h⟩ := takes_of_readNode hreal hnode
        exact ⟨o, ts, k, htakes.all hnil, h⟩
  · rintro ⟨hs, o, ts, k, htokens, ho, hk, hts, rfl⟩
    obtain ⟨d, hd, hnil⟩ := readNode_of_ahead (c := Cursor.ofText text) htokens ho hk hts
    exact ⟨⟨hs, d, items_readItem (.cons hd .nil), hnil⟩, rfl⟩

end Wrapping

end Reading

/-! ## Moved payloads -/

theorem cdataBody?_shift (n : Nat) (t : Token) :
    cdataBody? (t.shift n) = (cdataBody? t).map (Token.shift n) := by
  by_cases hk : t.kind = .bracket
  · unfold cdataBody?
    rw [Token.kind_shift, Token.children_shift, hk]
    match t.children with
    | [] => rfl
    | [_] => rfl
    | [name, body] =>
      simp only [List.map_cons, List.map_nil, Token.has_shift, Token.kind_shift]
      rw [apply_ite (Option.map (Token.shift n))]
      rfl
    | _ :: _ :: _ :: _ => rfl
  · rw [Window.cdataBody?_of_ne hk, Window.cdataBody?_of_ne (by rwa [Token.kind_shift])]
    rfl

theorem Token.Moved.cdataBody? {t u : Token} (h : t.Moved u) (ht : cdataBody? t = none) :
    cdataBody? u = none := by
  obtain ⟨m, n, h⟩ := h
  have hs := congrArg Node.cdataBody? h
  rw [cdataBody?_shift, cdataBody?_shift, ht] at hs
  simpa using hs.symm

theorem Wrapping.Admits.moved {w : Wrapping} {ts us : List Token} (h : w.Admits ts)
    (hm : List.Forall₂ Token.Moved ts us) : w.Admits us := by
  refine ⟨fun u hu => ?_, fun hw => ?_⟩
  · obtain ⟨i, hi, rfl⟩ := List.getElem_of_mem hu
    have hi' : i < ts.length := hm.length_eq ▸ hi
    have := (hm.get hi' hi).kind
    exact fun hk => h.open_ _ (List.get_mem ts ⟨i, hi'⟩) (this.symm.trans hk)
  · obtain ⟨hne, hbody⟩ := h.declares hw
    cases hm with
    | nil => exact absurd rfl hne
    | cons ht hm =>
      refine ⟨List.cons_ne_nil _ _, fun u hu => ?_⟩
      obtain rfl := Option.some.inj hu
      exact ht.cdataBody? (hbody _ rfl)

/-! ## Two dashes -/

open Scan in
/-- A dash is an atom of its own. -/
theorem Scan.Passes.dash {p q : Place} {as : List Atom} {more : List Char} (h : Passes p as q)
    (hr : p.rest = '-' :: more) (hq : q.rest = []) :
    ∃ bs, as = .leaf .punct "-" p.pos (p.pos + 1) :: bs ∧ Passes (p.advance 1) bs q := by
  cases h with
  | nil =>
    rw [hq] at hr
    cases hr
  | blank hr' hb =>
    rw [hr] at hr'
    obtain ⟨rfl, -⟩ := List.cons.inj hr'
    exact absurd hb (by decide)
  | leaf hr' _ _ _ hl h =>
    rw [hr] at hr'
    obtain ⟨rfl, rfl⟩ := List.cons.inj hr'
    have hleaf : readLeaf p '-' more = .ok (.leaf .punct "-" p.pos (p.pos + 1), p.advance 1) := by
      rw [readLeaf, if_neg (by decide), if_neg (by decide), if_neg (by decide),
        leafOf, hr, p.advance_one_pos hr]
      rfl
    obtain ⟨rfl, rfl⟩ := Prod.mk.inj (Except.ok.inj (hl.symm.trans hleaf))
    exact ⟨_, rfl, h⟩
  | @group _ b _ _ _ _ _ _ hr' =>
    rw [hr] at hr'
    obtain ⟨hc, -⟩ := List.cons.inj hr'
    cases b <;> exact absurd hc (by decide)

/-- Two touching dashes are the first atoms of the texts that start with them. -/
theorem prefix_dashes_iff {s : List Char} (hs : Scans s) :
    ['-', '-'] <+: s ↔ ∃ stop, spelled? (some 0) ['-', '-'] (atomsOf s) = some stop := by
  constructor
  · rintro ⟨rest, rfl⟩
    obtain ⟨q, hq, hend⟩ := scan_eq_ok_iff_passes.mp hs.scan_eq
    have hr := Place.start_rest (['-', '-'] ++ rest)
    obtain ⟨as, has, hq⟩ := hq.dash hr hend
    have hr' := Place.advance_one_rest hr
    obtain ⟨as, rfl, -⟩ := hq.dash hr' hend
    rw [has, Place.advance_one_pos hr]
    simp [spelled?]
  · rintro ⟨stop, hstop⟩
    obtain ⟨pos, mid, as, has, hpos, hstop⟩ := spelled?_cons_iff.mp hstop
    obtain ⟨pos', stop', as, rfl, hmid, -⟩ := spelled?_cons_iff.mp hstop
    obtain rfl : 0 = pos := by simpa using hpos
    obtain rfl : mid = pos' := by simpa using hmid
    have hl : Level s (atomsOf s) := .whole hs.scan_eq
    rw [has] at hl
    have hfirst := hl.slice_of_punct List.mem_cons_self
    have hsecond := hl.slice_of_punct (List.mem_cons_of_mem _ List.mem_cons_self)
    have hlt : mid < stop' :=
      (Level.neighbours (show Level s ([.leaf .punct "-" 0 mid]
        ++ ([.leaf .punct "-" mid stop'] ++ as)) from hl) rfl rfl).first
    have htake : ['-', '-'] = s.take stop' :=
      calc ['-', '-'] = Text.slice s 0 mid ++ Text.slice s mid stop' := by
            rw [hfirst, hsecond]
            rfl
        _ = Text.slice s 0 stop' := Text.slice_append (Nat.zero_le _) (Nat.le_of_lt hlt)
        _ = s.take stop' := by simp [Text.slice]
    rw [htake]
    exact s.take_prefix stop'

/-! ## Signs around a payload -/

namespace Wrapping

variable {w : Wrapping} {p s : List Char}

/-- The last tokens of a payload go on with the sign behind it. -/
def MergesLast : Wrapping → List Char → Prop
  | declaration, p => GoesOn p.length (tokensOf p)
  | instruction, p => ∃ t ∈ (tokensOf p).getLast?, t.kind = .lt ∧ t.stop = p.length

/-- The payload goes on with the sign before it, to a comment, or with the sign behind it. -/
def Merges (w : Wrapping) (p : List Char) : Prop :=
  (w = declaration ∧ ['-', '-'] <+: p) ∨ w.MergesLast p

theorem seam_opening (w : Wrapping) (s : List Char) : Text.Seam w.opening.toList s := by
  cases w with
  | declaration => exact .of_last (a := ['<']) (c := '!') (by decide)
  | instruction => exact .of_last (a := ['<']) (c := '?') (by decide)

theorem seam_closing (w : Wrapping) (p : List Char) : Text.Seam p w.closing.toList := by
  cases w with
  | declaration => exact .of_head (c := '>') (b := []) (by decide)
  | instruction => exact .of_head (c := '?') (b := ['>']) (by decide)

theorem scans_opening (w : Wrapping) : Scans w.opening.toList := by
  cases w with
  | declaration => exact ⟨_, by cbv⟩
  | instruction => exact ⟨_, by cbv⟩

theorem scans_closing (w : Wrapping) : Scans w.closing.toList := by
  cases w with
  | declaration => exact ⟨_, by cbv⟩
  | instruction => exact ⟨_, by cbv⟩

theorem atomsOf_opening (w : Wrapping) (hs : Scans s) : atomsOf (w.opening.toList ++ s)
    = atomsOf w.opening.toList ++ (atomsOf s).map (Atom.shift 2) := by
  have hlen : w.opening.toList.length = 2 := by cases w <;> rfl
  rw [atomsOf_append (w.seam_opening s) w.scans_opening hs, hlen]

theorem atomsOf_declaration : atomsOf (opening declaration).toList
    = [.leaf .punct "<" 0 1, .leaf .punct "!" 1 2] := atomsOf_of_scan (by cbv)

theorem atomsOf_instruction : atomsOf (opening instruction).toList
    = [.leaf .punct "<" 0 1, .leaf .punct "?" 1 2] := atomsOf_of_scan (by cbv)

theorem atomsOf_gt : atomsOf (closing declaration).toList = [.leaf .punct ">" 0 1] :=
  atomsOf_of_scan (by cbv)

theorem atomsOf_instructionEnd : atomsOf (closing instruction).toList
    = [.leaf .punct "?" 0 1, .leaf .punct ">" 1 2] := atomsOf_of_scan (by cbv)

/-- The tokens behind the first sign are those of the text behind it, unless it opens a comment. -/
theorem tokensOf_opening (hs : Scans s) (h : w = declaration → ¬ ['-', '-'] <+: s) :
    tokensOf (w.opening.toList ++ s)
      = .flat w.openKind w.opening 0 2 :: (tokensOf s).map (Token.shift 2) := by
  rw [tokensOf, atomsOf_opening w hs, tokensOf, ← classify_shift]
  cases w with
  | declaration =>
    rw [atomsOf_declaration]
    refine classify_declaration ?_
    have hnone : spelled? (some 0) ['-', '-'] (atomsOf s) = none :=
      Option.eq_none_iff_forall_ne_some.mpr fun stop hstop =>
        h rfl ((prefix_dashes_iff hs).mpr ⟨stop, hstop⟩)
    have hshift := spelled?_shift 2 (some 0) ['-', '-'] (atomsOf s)
    rwa [hnone] at hshift
  | instruction =>
    rw [atomsOf_instruction]
    exact classify_instruction

/-- Before two dashes, `<!` opens a comment. -/
theorem tokensOf_comment (hs : Scans s) (h : ['-', '-'] <+: s) :
    ∃ t ts, tokensOf ((opening declaration).toList ++ s) = t :: ts ∧ t.kind = .commentOpen := by
  obtain ⟨stop, hstop⟩ := (prefix_dashes_iff hs).mp h
  have hshift := spelled?_shift 2 (some 0) ['-', '-'] (atomsOf s)
  rw [hstop] at hshift
  rw [tokensOf, atomsOf_opening declaration hs, atomsOf_declaration]
  exact ⟨_, _, classify_commentOpen hshift, rfl⟩

/-- The tokens before the last sign are those of the text before it, unless the last of them go on
with it. -/
theorem tokensOf_closing_iff (hp : Scans p) : tokensOf (p ++ w.closing.toList)
    = tokensOf p ++ (tokensOf w.closing.toList).map (Token.shift p.length) ↔ ¬ w.MergesLast p := by
  rw [tokensOf, atomsOf_append (w.seam_closing p) hp w.scans_closing, tokensOf, tokensOf,
    ← classify_shift]
  cases w with
  | declaration =>
    have hiff := @classify_gt_iff (atomsOf p) p.length (1 + p.length)
    rw [atomsOf_gt, MergesLast, tokensOf, ← hiff]
    simp [classify, marker?, markers, spelled?]
  | instruction =>
    have hiff := @classify_instructionEnd_iff (atomsOf p) p.length (1 + p.length) (2 + p.length)
    rw [atomsOf_instructionEnd, MergesLast, tokensOf, ← hiff]
    simp [classify, marker?, markers, spelled?]

theorem tokensOf_closing (w : Wrapping) : ∃ k, tokensOf w.closing.toList = [k]
    ∧ k.kind = w.closeKind := by
  cases w with
  | declaration =>
    refine ⟨.flat .gt ">" 0 1, ?_, rfl⟩
    rw [tokensOf, atomsOf_gt]
    cbv
  | instruction =>
    refine ⟨.flat .instructionEnd "?>" 0 2, ?_, rfl⟩
    rw [tokensOf, atomsOf_instructionEnd]
    cbv

/-- If the last token is the last sign, the tokens before it are those of the text before it. -/
theorem tokensOf_of_closing {ts : List Token} {k : Token} (hp : Scans p)
    (h : tokensOf (p ++ w.closing.toList) = ts ++ [k]) (hk : k.kind = w.closeKind) :
    ts = tokensOf p ∧ [k] = (tokensOf w.closing.toList).map (Token.shift p.length) := by
  have hlen : ((atomsOf w.closing.toList).map (Atom.shift p.length)).length
      = w.closing.toList.length := by
    rw [List.length_map]
    cases w with
    | declaration => rw [atomsOf_gt]; rfl
    | instruction => rw [atomsOf_instructionEnd]; rfl
  have hmem : (w.closing.toList, w.closeKind) ∈ markers := by cases w <;> decide
  rw [tokensOf, atomsOf_append (w.seam_closing p) hp w.scans_closing,
    ← List.nil_append [k]] at h
  obtain ⟨A, B, hAB, rfl, hB, -, hk⟩ := classify_eq_append_marker h hmem hk hlen
  have hnil : B = [] := Classical.byContradiction fun hne => classify_ne_nil hne hB
  rw [hnil, List.append_nil] at hAB
  exact ⟨by rw [tokensOf, hAB], by rw [tokensOf, ← classify_shift, hk]⟩

/-! ## What is written -/

theorem emits_node (w : Wrapping) (r : Rendering) (scope : Bindings) (p : String) :
    Emits r.sink (Render.node r scope (w.node p)) scope (w.text p) := by
  have hwrite : Emits r.sink (Action.write r.sink (w.text p)) () (w.text p) := emits_write
  cases w with
  | declaration =>
    rw [node, Render.node]
    exact hwrite.then_pure
  | instruction =>
    rw [node, Render.node]
    exact hwrite.then_pure

end Wrapping

namespace Wrapping

theorem mem_markers_opening (w : Wrapping) : (w.opening.toList, w.openKind) ∈ markers := by
  cases w <;> decide

/-- The first token of a payload is not marked by what stands before it. -/
theorem not_isWordPart_before {w : Wrapping} {text : List Char} {o t : Token}
    {xs ts ys : List Token} (h : Row text xs (o :: t :: ts) ys) (ho : o.kind = w.openKind) :
    ∀ c ∈ (text.take t.pos).getLast?, Scan.isWordPart c = false := by
  by_cases htouch : o.stop = t.pos
  · rw [← htouch]
    exact h.head.not_isWordPart_of_marker w.mem_markers_opening ho
  · exact (Row.not_isWordPart_of_gap h.tail htouch).2

/-- What is written for tokens that may be a payload is the same markup, unless they go on with the
signs around it. -/
theorem ofText?_text_iff {w : Wrapping} {p : String} {ts : List Token}
    (h : Squeezed ts p.toList) (hts : w.Admits ts) :
    Document.ofText? (w.text p).toList = .ok ⟨[w.node p], (w.text p).toList⟩
      ↔ ¬ w.Merges p.toList := by
  have htext : (w.text p).toList = w.opening.toList ++ (p.toList ++ w.closing.toList) := by
    simp [text]
  have hs : Scans (p.toList ++ w.closing.toList) :=
    .append (w.seam_closing _) h.scans w.scans_closing
  rw [htext, ofText?_iff]
  constructor
  · rintro ⟨-, o, us, k, htokens, ho, hk, -, -⟩ hm
    have hdashes : w = declaration → ¬ ['-', '-'] <+: p.toList ++ w.closing.toList := by
      rintro rfl hdashes
      obtain ⟨t, vs, hcomment, ht⟩ := tokensOf_comment hs hdashes
      rw [hcomment] at htokens
      obtain ⟨rfl, -⟩ := List.cons.inj htokens
      rw [ht] at ho
      cases ho
    rcases hm with ⟨rfl, hm⟩ | hm
    · exact hdashes rfl (hm.trans (List.prefix_append _ _))
    · -- the tokens of the payload and of the last sign are those behind the first
      rw [tokensOf_opening hs hdashes] at htokens
      obtain ⟨vs, ks, hvs, -, hks⟩ := List.map_eq_append_iff.mp (List.cons.inj htokens).2
      obtain ⟨l, rfl, rfl⟩ := List.map_eq_singleton_iff.mp hks
      rw [Token.kind_shift] at hk
      obtain ⟨rfl, hl⟩ := tokensOf_of_closing h.scans hvs hk
      rw [hl] at hvs
      exact (tokensOf_closing_iff h.scans).mp hvs hm
  · intro hm
    obtain ⟨hfirst, hlast⟩ := not_or.mp hm
    have hdashes : w = declaration → ¬ ['-', '-'] <+: p.toList ++ w.closing.toList := by
      rintro rfl hdashes
      rcases List.prefix_concat_iff.mp (show _ <+: p.toList ++ ['>'] from hdashes) with he | hp
      · have := congrArg List.getLast? he
        simp at this
      · exact hfirst ⟨rfl, hp⟩
    obtain ⟨k, hk, hkind⟩ := w.tokensOf_closing
    have hlen : w.opening.toList.length = 2 := by cases w <;> rfl
    refine ⟨.append (w.seam_opening _) w.scans_opening hs, .flat w.openKind w.opening 0 2,
      (tokensOf p.toList).map (Token.shift 2), (k.shift p.toList.length).shift 2, ?_, rfl, ?_,
      hts.moved (Token.Moved.forall₂_shift h.tokens 2), ?_⟩
    · rw [tokensOf_opening hs hdashes, (tokensOf_closing_iff h.scans).mpr hlast, hk,
        List.map_append, List.map_singleton, List.map_singleton]
    · rw [Token.kind_shift, Token.kind_shift, hkind]
    · have hjoined := joinedOf_shift w.opening.toList p.toList w.closing.toList
      rw [hlen, List.append_assoc] at hjoined
      rw [hjoined, ← String.toList_inj, h.joined]

/-- A text that is one such markup keeps of it the source texts of the tokens between its signs,
with one blank for the blanks between two of them. It is written as this payload between its signs.
What is written is the same markup if and only if the payload does not go on with one of the signs
to another marker. -/
theorem round_trip (w : Wrapping) {text : List Char} {p : String}
    (h : Document.ofText? text = .ok ⟨[w.node p], text⟩) :
    (∃ o ts k, tokensOf text = o :: (ts ++ [k]) ∧ o.kind = w.openKind ∧ k.kind = w.closeKind
        ∧ p = joinedOf text ts ∧ (o :: (ts ++ [k])).IsChain fun t u =>
          ∀ c ∈ Text.slice text t.stop u.pos, Text.isBlank c = true)
      ∧ (∀ (ev : Evaluator) (sink : Nat) (source : List Char) (scope : Bindings),
        Emits sink (Render.document ev sink ⟨[w.node p], source⟩ scope) () (w.text p))
      ∧ (Document.ofText? (w.text p).toList = .ok ⟨[w.node p], (w.text p).toList⟩
        ↔ ¬ w.Merges p.toList) := by
  obtain ⟨hscans, o, ts, k, htokens, ho, hk, hts, rfl⟩ := ofText?_iff.mp h
  obtain ⟨hrow, -⟩ := row_of_scan hscans.scan_eq
  change Row text [] (tokensOf text) [] at hrow
  rw [htokens] at hrow
  have hpayload : Row text ([] ++ [o]) ts [k] := hrow.tail.left
  have hsqueezed : Squeezed ts (joinedOf text ts).toList :=
    hpayload.squeezed fun t ht => by
      obtain ⟨ts, rfl⟩ := List.head?_eq_some_iff.mp ht
      exact not_isWordPart_before hrow ho
  refine ⟨⟨o, ts, k, htokens, ho, hk, rfl, hrow.isChain_blank⟩, fun ev sink source scope => ?_, ?_⟩
  · have hdoc : Emits sink (Render.document ev sink ⟨[w.node (joinedOf text ts)], source⟩ scope) ()
        (w.text (joinedOf text ts) ++ "" ++ "") :=
      ((w.emits_node ⟨ev, sink, source⟩ scope _).bind emits_pure).bind emits_pure
    rwa [String.append_empty, String.append_empty] at hdoc
  · exact ofText?_text_iff hsqueezed hts

/-- A declaration with gaps of several blanks, of which the last is not written. -/
theorem round_trip_declaration :
    Document.ofText? "<!a \n [b]  = 'c' >".toList
        = .ok ⟨[.doctype "a [b] = 'c'"], "<!a \n [b]  = 'c' >".toList⟩
      ∧ (∃ o ts k, tokensOf "<!a \n [b]  = 'c' >".toList = o :: (ts ++ [k])
        ∧ "a [b] = 'c'" = joinedOf "<!a \n [b]  = 'c' >".toList ts)
      ∧ Emits 0 (Render.document ⟨Host.language 4, []⟩ 0 ⟨[.doctype "a [b] = 'c'"], []⟩ []) ()
        "<!a [b] = 'c'>"
      ∧ Document.ofText? "<!a [b] = 'c'>".toList
        = .ok ⟨[.doctype "a [b] = 'c'"], "<!a [b] = 'c'>".toList⟩ := by
  have h : Document.ofText? "<!a \n [b]  = 'c' >".toList
      = .ok ⟨[declaration.node "a [b] = 'c'"], "<!a \n [b]  = 'c' >".toList⟩ := by cbv
  obtain ⟨⟨o, ts, k, htokens, -, -, hp, -⟩, hemits, hparse⟩ := round_trip declaration h
  refine ⟨h, ⟨o, ts, k, htokens, hp⟩, hemits _ 0 [] [], hparse.mpr ?_⟩
  have hlast : (tokensOf "a [b] = 'c'".toList).getLast? = some (.flat .string "c" 8 11) := by
    rw [tokensOf, atomsOf_of_scan (by cbv)]
    cbv
  rintro (⟨-, hdashes⟩ | hgo)
  · exact absurd (List.cons_prefix_cons.mp hdashes).1 (by decide)
  · obtain ⟨t, ht, hk⟩ := GoesOn.last hgo
    rw [hlast] at ht
    obtain rfl := Option.some.inj ht
    cases hk

/-- A declaration that is not read again from what is written for it: its last token is an arrow
with the sign behind it. -/
theorem not_round_trip_arrow :
    Document.ofText? "<!a = >".toList = .ok ⟨[.doctype "a ="], "<!a = >".toList⟩
      ∧ (Render.document ⟨Host.language 4, []⟩ 0 ⟨[.doctype "a ="], "<!a = >".toList⟩ []
        Store.empty).store.output 0 = "<!a =>"
      ∧ Document.ofText? "<!a =>".toList = .error (.template ⟨.malformed,
        "Expected '>' to close <! at 6 (line 1, column 7)", some 6⟩) := by
  obtain ⟨as, d, has, hd⟩ : ∃ as d, scan "<!a =>".toList 0 = .ok as
      ∧ readNodes none (Cursor.ofTokens "<!a =>".toList (classify as))
        = .error ⟨.expectedBefore "'>' to close <!", 6⟩ d := ⟨_, _, by cbv, by cbv⟩
  have hplace : Location.describe "<!a =>".toList 6 = " at 6 (line 1, column 7)" := by cbv
  refine ⟨by cbv, by cbv, ?_⟩
  simp only [Document.ofText?, Document.ofTextFrom?, has, hd]
  show Except.error (Failure.template ⟨.malformed, "Expected '>' to close <!"
    ++ Location.describe "<!a =>".toList 6, some 6⟩) = _
  rw [hplace]
  rfl

end Wrapping

end MarkupTemplate
