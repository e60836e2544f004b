import MarkupTemplate.Proofs.Tag

/-!
# Texts inside each other

A block in braces parses as the text between its braces parses by itself, and an element has as its
children the nodes that its body has by itself; in both the nodes stand further on.

* `Cursor.Visits`: the cursors that the parser of a text can come to.
* `At.readNodes_iff`: the nodes before the end of a group are those of its text.
* `nesting`: the nesting law, for blocks and for elements.
-/
namespace MarkupTemplate

open Cursor Node

/-! ## Cursors of a text -/

/-- The cursors that lie in a text or in one of its groups, at any depth: a parser moves over tokens
and into groups. -/
inductive Cursor.Visits (text : List Char) : Cursor → Prop where
  | start {c : Cursor} (h : tokenize text = .ok c) : Visits text c
  | skip {c : Cursor} (h : Visits text c) (n : Nat) : Visits text (c.skip n)
  | inside {c : Cursor} {g : Token} (h : Visits text c) (hg : g ∈ c.ahead) :
      Visits text (c.inside g)

namespace Cursor.Visits

variable {text : List Char} {c : Cursor}

/-- Readers stay in the text. -/
theorem forward {α : Type} {r : Reader α} (hr : Forward r) (h : Visits text c) :
    Visits text (cursorOf (r c)) := by
  obtain ⟨n, hn⟩ := hr c
  rw [hn]
  exact .skip h n

theorem source_eq (h : Visits text c) : c.source = text := by
  induction h with
  | start h =>
    unfold tokenize at h
    cases hs : scan text 0 with
    | error f => rw [hs] at h; cases h
    | ok as => rw [hs] at h; exact Except.ok.inj h ▸ rfl
  | skip _ _ ih => exact ih
  | inside _ _ ih => exact ih

theorem scans (h : Visits text c) : Scans text := by
  induction h with
  | start h =>
    unfold tokenize at h
    cases hs : scan text 0 with
    | error f => rw [hs] at h; cases h
    | ok as => exact ⟨as, hs⟩
  | skip _ _ ih => exact ih
  | inside _ _ ih => exact ih

theorem occurs (h : Visits text c) : ∀ t ∈ c.ahead, Token.Occurs t (tokensOf text) := by
  induction h with
  | @start c h =>
    obtain ⟨as, has⟩ := (start h).scans
    rw [tokenize, has] at h
    obtain rfl := Except.ok.inj h
    intro t ht
    rw [tokensOf, atomsOf_of_scan has]
    exact .here ht
  | skip _ _ ih => exact fun t ht => ih t (List.mem_of_mem_drop ht)
  | inside _ hg ih => exact fun t ht => (ih _ hg).child ht

/-- A brace group that comes next holds a text of its own, whose tokens are inside it. -/
theorem brace (h : Visits text c) (hb : c.isAt .brace = true) :
    ∃ before inside after, text = before ++ '\x7b' :: (inside ++ '\x7d' :: after)
      ∧ c.head.pos = before.length ∧ c.head.stop = before.length + inside.length + 2
      ∧ Scans inside ∧ (c.inside c.head).At (before ++ ['\x7b']) inside ('\x7d' :: after) [] := by
  have hne : c.ahead ≠ [] := by
    intro hn
    rw [Window.isAt_of_nil hn (by decide)] at hb
    cases hb
  obtain ⟨g, rest, hahead⟩ := List.exists_cons_of_ne_nil hne
  have hhead : c.head = g := Window.head_of_ahead hahead
  have hkind : g.kind = groupTokenKind .curly := by
    rw [isAt, hhead] at hb
    exact beq_iff_eq.mp hb
  have hocc := h.occurs g (by rw [hahead]; exact List.mem_cons_self)
  obtain ⟨b, pos, stop, inner, children, hgroup, rfl⟩ := group_of_occurs hocc hkind
  obtain rfl : b = .curly := by cases b <;> first | rfl | cases hkind
  obtain ⟨before, inside, after, inside', htext, rfl, rfl, -, hscan, hchildren⟩ :=
    scan_group h.scans.scan_eq hgroup
  refine ⟨before, inside, after, htext, by rw [hhead]; rfl, by rw [hhead]; rfl, ⟨_, hscan⟩, ?_⟩
  refine ⟨?_, ?_⟩
  · change c.source = _
    rw [h.source_eq, htext]
    simp [Bracket.opener, Bracket.closer]
  · rw [hhead]
    change classify children = _
    rw [← hchildren, classify_shift, tokensOf, atomsOf_of_scan hscan]
    simp

end Cursor.Visits

/-! ## Blocks -/

/-- The nodes of a text that fills a group are the nodes that the text has by itself. -/
theorem Cursor.At.readNodes_iff {c : Cursor} {before s after : List Char}
    (hc : c.At before s after []) (hs : Scans s) {nodes : List Node} :
    (∃ d, readNodes none c = .ok nodes d) ↔ ∃ doc, Document.ofText? s = .ok doc
      ∧ nodes = doc.nodes.map (Node.shift before.length) := by
  constructor
  · rintro ⟨d, hd⟩
    obtain ⟨ms, d', hms, hm, -⟩ := Window.tracks_readNodes hc.embeds_ofText nodes d hd
    refine ⟨⟨ms, s⟩, ofText?_ok_iff_readNodes.mpr ⟨hs, ⟨d', hms⟩, rfl⟩, ?_⟩
    simpa [Window.Moves, Window.shiftNodes] using hm.symm
  · rintro ⟨doc, hdoc, rfl⟩
    obtain ⟨-, ⟨d, hd⟩, -⟩ := ofText?_ok_iff_readNodes.mp hdoc
    obtain ⟨ms, d', hms, hm, -⟩ := Window.tracks_readNodes hc.embeds doc.nodes d hd
    refine ⟨d', ?_⟩
    rw [hms]
    simpa [Window.Moves, Window.shiftNodes] using hm

theorem blockFrom_ok_iff_readNodes {c : Cursor} (hb : c.isAt .brace = true) {nodes : List Node} :
    (∃ d, Node.blockFrom c = .ok (nodes, d))
      ↔ ∃ d, readNodes none (c.inside c.head) = .ok nodes d := by
  have htake : expectKind .brace c = .ok c.head (c.skip 1) := by
    change (if c.head.kind = .brace then pure c.head else _ : Reader Token) (c.skip 1) = _
    rw [if_pos (beq_iff_eq.mp hb)]
    rfl
  have hresult : (∃ d, Node.blockFrom c = .ok (nodes, d)) ↔ ∃ d, readBlock c = .ok nodes d := by
    unfold readBlock
    cases Node.blockFrom c with
    | error e => simp [result]
    | ok x => simp [result, Prod.ext_iff]
  have hget : (get : Reader Cursor) (c.skip 1) = .ok (c.skip 1) (c.skip 1) := rfl
  have hinside : (c.skip 1).inside c.head = c.inside c.head := rfl
  rw [hresult, readBlock_eq, Window.bind_of_ok htake, Window.bind_of_ok hget, hinside]
  cases readNodes none (c.inside c.head) with
  | error f d => simp [throw, throwThe, MonadExceptOf.throw, EStateM.throw]
  | ok ns d => simp [pure, EStateM.pure]

/-- A block parses when the text between its braces does, and to the same nodes further on. -/
theorem blockFrom_ok_iff {text : List Char} {c : Cursor} (h : c.Visits text)
    (hb : c.isAt .brace = true) : ∃ before inside after,
      text = before ++ '\x7b' :: (inside ++ '\x7d' :: after) ∧ c.head.pos = before.length
        ∧ c.head.stop = before.length + inside.length + 2
        ∧ ∀ nodes, (∃ d, Node.blockFrom c = .ok (nodes, d))
          ↔ ∃ doc, Document.ofText? inside = .ok doc
            ∧ nodes = doc.nodes.map (Node.shift (before.length + 1)) := by
  obtain ⟨before, inside, after, htext, hpos, hstop, hscan, hat⟩ := h.brace hb
  refine ⟨before, inside, after, htext, hpos, hstop, fun nodes => ?_⟩
  rw [blockFrom_ok_iff_readNodes hb, hat.readNodes_iff hscan, List.length_append]
  rfl

/-! ## Elements -/

/-- Wherever the items of the text end, no closing tag comes next: each of them closes an element
of the text. -/
def ClosesElements (s : List Char) : Prop :=
  ∀ nodes d, Items readItem (Cursor.ofText s) nodes d → d.isAt .closeTag = false

theorem Items.readNode_of_closes {c e : Cursor} {nodes : List Node}
    (h : Items readItem c nodes e)
    (hc : ∀ nodes d, Items readItem c nodes d → d.isAt .closeTag = false) :
    Items readNode c nodes e := by
  induction h with
  | nil => exact .nil
  | @cons c d e node nodes h hs ih =>
    have hno : c.isAt .closeTag = false := hc [] c .nil
    refine .cons ?_ (ih fun ms f hms => hc (node :: ms) f (.cons h hms))
    rwa [readItem, hno] at h

theorem ofText?_element {a : List Char} {x : Document} {n m : String}
    (ha : Document.ofText? a = .ok x) (hc : ClosesElements a) (hn : PlainName n)
    (hm : PlainName m) :
    Document.ofText? (("<" ++ n ++ ">").toList ++ a ++ ("</" ++ m ++ ">").toList)
      = .ok ⟨[.element n [] false (x.nodes.map (Node.shift ("<" ++ n ++ ">").length)) (some m)],
        ("<" ++ n ++ ">").toList ++ a ++ ("</" ++ m ++ ">").toList⟩ := by
  obtain ⟨⟨hs, d, hd, hnil⟩, -⟩ := ofText?_ok_iff.mp ha
  have hyields : Yields readNode a x.nodes := ⟨hs, d, hd.readNode_of_closes hc, hnil⟩
  have hnone : ∀ x ∈ ([] : List (List Char × Attribute)), AttributeText x.1 x.2 := by simp
  obtain ⟨hs', e, he, hnil'⟩ := yields_element hn hm hnone hyields
  have htext : ("<" ++ n ++ ">").toList ++ a ++ ("</" ++ m ++ ">").toList
      = elementText n [] a m := by
    simp [elementText, tagText, attributesText, tagEnd, closeTagText]
  have hlen : (tagText n [] false).length = ("<" ++ n ++ ">").length := by
    rw [← String.length_toList]
    simp [tagText, attributesText, tagEnd]
  rw [htext]
  refine ofText?_ok_iff.mpr ⟨⟨hs', e, ?_, hnil'⟩, rfl⟩
  rw [hlen] at he
  exact items_readItem he

/-- What a text yields as nodes alone closes its elements only. -/
theorem closesElements_of_yields {s : List Char} {nodes : List Node}
    (h : Yields readNode s nodes) : ClosesElements s := by
  obtain ⟨-, e, he, hnil⟩ := h
  unfold ClosesElements
  generalize Cursor.ofText s = c at he
  induction he with
  | @nil c =>
    intro ms d hd
    cases hd with
    | nil => exact Window.isAt_of_nil hnil (by decide)
    | cons hr _ => exact absurd hr (readItem_fails (by simp [isAt, Window.head_kind_of_nil hnil]))
  | @cons c d e node nodes hr _ ih =>
    have hno : c.isAt .closeTag = false := by
      rw [← Bool.not_eq_true]
      exact fun hc => readNode_fails (.inr hc) hr
    intro ms f hf
    cases hf with
    | nil => exact hno
    | cons hr' hs =>
      rw [readItem, hno, if_neg Bool.false_ne_true, hr] at hr'
      injection hr' with _ hd
      exact ih hnil _ _ (hd ▸ hs)

/-! ## Nesting -/

/-- A block parses exactly when the text between its braces does, to the same nodes further on; and
a text whose closing tags all close elements of it is the body of an element. -/
theorem nesting :
    (∀ {text : List Char} {c : Cursor}, c.Visits text → c.isAt .brace = true →
      ∃ before inside after, text = before ++ '\x7b' :: (inside ++ '\x7d' :: after)
        ∧ c.head.pos = before.length ∧ c.head.stop = before.length + inside.length + 2
        ∧ ∀ nodes, (∃ d, Node.blockFrom c = .ok (nodes, d))
          ↔ ∃ doc, Document.ofText? inside = .ok doc
            ∧ nodes = doc.nodes.map (Node.shift (before.length + 1)))
      ∧ ∀ {a : List Char} {x : Document} {n m : String}, Document.ofText? a = .ok x →
        ClosesElements a → PlainName n → PlainName m →
          Document.ofText? (("<" ++ n ++ ">").toList ++ a ++ ("</" ++ m ++ ">").toList)
            = .ok ⟨[.element n [] false (x.nodes.map (Node.shift ("<" ++ n ++ ">").length))
                (some m)],
              ("<" ++ n ++ ">").toList ++ a ++ ("</" ++ m ++ ">").toList⟩ :=
  ⟨blockFrom_ok_iff, ofText?_element⟩

/-- The body of a choice, and an expression as the body of an element. -/
theorem nesting_choice_paragraph :
    (∃ before inside after,
      "if a \x7b\"x\"\x7d".toList = before ++ '\x7b' :: (inside ++ '\x7d' :: after)
        ∧ ((Cursor.ofText "if a \x7b\"x\"\x7d".toList).skip 2).head.pos = before.length
        ∧ ((Cursor.ofText "if a \x7b\"x\"\x7d".toList).skip 2).head.stop
          = before.length + inside.length + 2
        ∧ ∀ nodes,
          (∃ d, Node.blockFrom ((Cursor.ofText "if a \x7b\"x\"\x7d".toList).skip 2)
            = .ok (nodes, d))
          ↔ ∃ doc, Document.ofText? inside = .ok doc
            ∧ nodes = doc.nodes.map (Node.shift (before.length + 1)))
      ∧ Document.ofText? (("<" ++ "p" ++ ">").toList ++ "\x7bb\x7d".toList
          ++ ("</" ++ "p" ++ ">").toList)
        = .ok ⟨[.element "p" [] false ([Node.expression ⟨"b", none, .text, 0⟩].map (Node.shift 3))
            (some "p")],
          ("<" ++ "p" ++ ">").toList ++ "\x7bb\x7d".toList ++ ("</" ++ "p" ++ ">").toList⟩ := by
  have hstart : Cursor.Visits "if a \x7b\"x\"\x7d".toList
      (Cursor.ofText "if a \x7b\"x\"\x7d".toList) := .start (by cbv)
  have hb : Document.ofText? "\x7bb\x7d".toList
      = .ok ⟨[.expression ⟨"b", none, .text, 0⟩], "\x7bb\x7d".toList⟩ := by cbv
  have hyields : Yields readNode "\x7bb\x7d".toList [.expression ⟨"b", none, .text, 0⟩] :=
    ⟨⟨_, by cbv⟩, (Cursor.ofText "\x7bb\x7d".toList).skip 1, .cons (by cbv) .nil, by cbv⟩
  exact ⟨nesting.1 (.skip hstart 2) (by cbv),
    nesting.2 hb (closesElements_of_yields hyields) plainName_p plainName_p⟩

end MarkupTemplate
