import Mathlib
import MarkupTemplate.Proofs.Node.Derivation
import MarkupTemplate.Proofs.Node.Layout

/-!
# Parsed documents are well formed

Every node of a parsed document has a form that rendering expects, every expression has the context
of its place, and the positions that nodes carry rise in rendering order and name the characters
that open them.

* `Node.WellFormed`: the forms of nodes; `Document.nodes_wellFormed`: those of parsed documents.
* `Spot.Opens`: what stands in the text at the position of a spot.
* `wellFormed_of_ofText?`: the law for documents.
-/
namespace MarkupTemplate

/-! ## Forms -/

/-- A literal, or an expression of the context. -/
inductive Part.WellFormed (context : EscapeContext) : Part → Prop where
  | literal (text : String) : WellFormed context (.literal text)
  | expression {e : Expression} (h : e.context = context) : WellFormed context (.expression e)

/-- A literal or an expression in a group. -/
inductive AttributeValue.Piece : AttributeValue → Prop where
  | literal (text : String) : Piece (.literal text)
  | expression {e : Expression} (h : e.context = .attr) : Piece (.expression e)

/-- An attribute value holds no control flow, and its expressions have the context of attributes. -/
inductive AttributeValue.WellFormed : AttributeValue → Prop where
  | literal (text : String) : WellFormed (.literal text)
  | expression {e : Expression} (h : e.context = .attr) : WellFormed (.expression e)
  | conditional (items : List (String × String)) (pos : Nat) : WellFormed (.conditional items pos)
  | concat {parts : List AttributeValue} (h : ∀ part ∈ parts, part.Piece) :
      WellFormed (.concat parts)
  | closure (c : Closure) : WellFormed (.closure c)

/-- An attribute is bare or has such a value. -/
def Attribute.WellFormed (a : Attribute) : Prop := ∀ v ∈ a.value, v.WellFormed

/-- A node and all that it contains have the forms that the parser gives them. -/
inductive Node.WellFormed : Node → Prop where
  | text (value : String) : WellFormed (.text value)
  | expression {e : Expression} (h : e.context = .text) : WellFormed (.expression e)
  | closure (c : Closure) : WellFormed (.closure c)
  /-- A tag that closes itself has neither children nor a closing tag. -/
  | void {name : String} {attributes : List Attribute} (ha : ∀ a ∈ attributes, a.WellFormed) :
      WellFormed (.element name attributes true [] none)
  | element {name closeName : String} {attributes : List Attribute} {children : List Node}
      (ha : ∀ a ∈ attributes, a.WellFormed) (hc : ∀ child ∈ children, WellFormed child) :
      WellFormed (.element name attributes false children (some closeName))
  | doctype {payload : String} (h : payload ≠ "") : WellFormed (.doctype payload)
  | instruction (payload : String) : WellFormed (.instruction payload)
  | comment {parts : List Part} (h : ∀ part ∈ parts, part.WellFormed .comment) :
      WellFormed (.comment parts)
  | cdata {parts : List Part} (h : ∀ part ∈ parts, part.WellFormed .cdata) :
      WellFormed (.cdata parts)
  | binding (pattern value : String) (pos : Nat) : WellFormed (.binding pattern value pos)
  | choice {branches : List Branch} {otherwise : Option (List Node)} (hne : branches ≠ [])
      (hb : ∀ condition body pattern pos, Branch.mk condition body pattern pos ∈ branches →
        ∀ node ∈ body, WellFormed node)
      (ho : ∀ nodes, otherwise = some nodes → ∀ node ∈ nodes, WellFormed node) :
      WellFormed (.choice branches otherwise)
  | selection {scrutinee : String} {arms : List Arm} {pos : Nat}
      (h : ∀ pattern body, Arm.mk pattern body ∈ arms → ∀ node ∈ body, WellFormed node) :
      WellFormed (.selection scrutinee arms pos)
  | loop {pattern iterable : String} {body : List Node} {pos : Nat}
      (h : ∀ node ∈ body, WellFormed node) : WellFormed (.loop pattern iterable body pos)

/-- The forms of what a phrase consists of. -/
def Phrase.WellFormed : Phrase → Prop
  | node n => n.WellFormed
  | nodes ns | block ns | body ns => ∀ n ∈ ns, n.WellFormed
  | branches bs otherwise => bs ≠ []
      ∧ (∀ condition body pattern pos, Branch.mk condition body pattern pos ∈ bs →
        ∀ n ∈ body, n.WellFormed)
      ∧ ∀ nodes, otherwise = some nodes → ∀ n ∈ nodes, n.WellFormed
  | arms as => ∀ pattern body, Arm.mk pattern body ∈ as → ∀ n ∈ body, n.WellFormed

section Forms

variable {text : List Char} {xs ts ys : List Token}

theorem DerivesParts.wellFormed {context : EscapeContext} {parts : List Part}
    (h : DerivesParts text context ts parts) : ∀ part ∈ parts, part.WellFormed context := by
  induction h with
  | nil => simp
  | literal _ _ ih => exact List.forall_mem_cons.mpr ⟨.literal _, ih⟩
  | expression _ hc _ ih => exact List.forall_mem_cons.mpr ⟨.expression hc, ih⟩

theorem DerivesValue.wellFormed {v : AttributeValue} (h : DerivesValue text ts v) :
    v.WellFormed := by
  cases h with
  | literal => exact .literal _
  | expression _ hc => exact .expression hc
  | conditional => exact .conditional _ _
  | concat _ h =>
    refine .concat fun v hv => ?_
    obtain ⟨part, hp, rfl⟩ := List.mem_map.mp hv
    cases h.wellFormed part hp with
    | literal s => exact .literal s
    | expression hc => exact .expression hc
  | closure => exact .closure _

theorem DerivesAttributes.wellFormed {attributes : List Attribute}
    (h : DerivesAttributes text ts attributes) : ∀ a ∈ attributes, a.WellFormed := by
  induction h with
  | nil => simp
  | bare _ _ ih => exact List.forall_mem_cons.mpr ⟨by simp [Attribute.WellFormed], ih⟩
  | valued _ _ hv _ ih =>
    exact List.forall_mem_cons.mpr ⟨by simpa [Attribute.WellFormed] using hv.wellFormed, ih⟩

/-- Tokens of a row have a source text. -/
theorem joinedOf_ne_empty (h : Row text xs ts ys) (hne : ts ≠ []) : joinedOf text ts ≠ "" := by
  obtain ⟨t, ts, rfl⟩ := List.exists_cons_of_ne_nil hne
  obtain ⟨c, hc, -⟩ := h.head.not_isBlank
  rw [← Text.head?_slice (h.pos_lt_stop List.mem_cons_self)] at hc
  obtain ⟨s, hs⟩ := List.head?_eq_some_iff.mp hc
  intro he
  have := congrArg String.toList he
  simp [joinedOf, Cursor.joined, Cursor.ofTokens, hs] at this

/-- A branch in front of others. -/
theorem branches_cons {s : String} {p : Option String} {pos : Nat} {body : List Node}
    {branches : List Branch} (h : ∀ n ∈ body, n.WellFormed)
    (hs : ∀ condition body pattern pos, Branch.mk condition body pattern pos ∈ branches →
      ∀ n ∈ body, n.WellFormed) :
    ∀ condition body' pattern pos',
      Branch.mk condition body' pattern pos' ∈ .mk s body p pos :: branches →
        ∀ n ∈ body', n.WellFormed := by
  intro condition body' pattern pos' hm
  rcases List.mem_cons.mp hm with he | hm
  · obtain ⟨-, rfl, -, -⟩ := Branch.mk.inj he
    exact h
  · exact hs _ _ _ _ hm

/-- What is derived from the tokens of a row has the forms of nodes. -/
theorem Derives.wellFormed {phrase : Phrase} (h : Derives text ts phrase) :
    ∀ {xs ys}, Row text xs ts ys → phrase.WellFormed := by
  induction h with
  | text => exact fun _ => .text _
  | stray => exact fun _ => .text _
  | expression _ hc => exact fun _ => .expression hc
  | closure => exact fun _ => .closure _
  | void _ _ ha => exact fun _ => .void ha.wellFormed
  | element _ _ ha _ _ _ ih =>
    exact fun hr => .element ha.wellFormed (ih hr.tail.right.right.tail.left)
  | comment _ h => exact fun _ => .comment h.wellFormed
  | cdata _ _ _ _ h => exact fun _ => .cdata h.wellFormed
  | doctype _ hne => exact fun hr => .doctype (joinedOf_ne_empty hr.tail.left hne)
  | instruction => exact fun _ => .instruction _
  | binding => exact fun _ => .binding _ _ _
  | choice _ _ ih =>
    intro xs ys hr
    obtain ⟨hne, hb, ho⟩ := ih hr.tail
    exact .choice hne hb ho
  | selection _ hg _ ih =>
    exact fun hr => .selection (ih (hr.right.inside (Token.isGroup_of_kind (b := .curly) hg)))
  | loop _ _ ih => exact fun hr => .loop (ih hr.right)
  | noNodes => exact fun _ => by simp [Phrase.WellFormed]
  | nodes _ _ ih ihs =>
    exact fun hr => List.forall_mem_cons.mpr ⟨ih hr.left, ihs hr.right⟩
  | block hg _ ih =>
    exact fun hr => ih (hr.inside (Token.isGroup_of_kind (b := .curly) hg))
  | blockBody _ ih => exact ih
  | nodeBody _ ih =>
    exact fun hr => List.forall_mem_cons.mpr ⟨ih hr, by simp⟩
  | branch _ _ ih =>
    exact fun hr => ⟨List.cons_ne_nil _ _, branches_cons (ih hr.right) (by simp), by simp⟩
  | otherwise _ _ _ _ ih iho =>
    intro xs ys hr
    have hother := iho hr.right.right.tail
    refine ⟨List.cons_ne_nil _ _, branches_cons (ih hr.right.left) (by simp), fun nodes he => ?_⟩
    obtain rfl := Option.some.inj he
    exact hother
  | elseIf _ _ _ _ _ ih iho =>
    intro xs ys hr
    obtain ⟨-, hrest, hother⟩ := iho hr.right.right.tail.tail
    exact ⟨List.cons_ne_nil _ _, branches_cons (ih hr.right.left) hrest, hother⟩
  | noArms => exact fun _ => by simp [Phrase.WellFormed]
  | arm _ _ _ _ ih iha =>
    intro xs ys hr pattern body hm
    rcases List.mem_cons.mp hm with he | hm
    · obtain ⟨-, rfl⟩ := Arm.mk.inj he
      exact ih hr.right.left
    · exact iha hr.right.right.right _ _ hm

/-- The nodes of a parsed document have their forms. -/
theorem Document.nodes_wellFormed {doc : Document} (h : Document.ofText? text = .ok doc) :
    ∀ node ∈ doc.nodes, node.WellFormed := by
  obtain ⟨atoms, hscan, hd⟩ := derives_of_ofText? h
  exact hd.wellFormed (row_of_scan hscan).1

end Forms

/-! ## Positions -/

/-- The first character from an offset on that is not blank. -/
def Text.FirstFrom (text : List Char) (lo pos : Nat) : Prop :=
  lo ≤ pos ∧ (∀ i, lo ≤ i → i < pos → ∃ c ∈ text[i]?, isBlank c = true)
    ∧ ∃ c ∈ text[pos]?, isBlank c = false

/-- What stands in the text at the position of a spot: the bracket or the bar that opens it, its
keyword, or, for a branch, what comes first after the word `if`. -/
def Spot.Opens (text : List Char) : Spot → Prop
  | expression e => text[e.pos]? = some '\x7b'
  | closure c => text[c.pos]? = some '|'
  | conditions _ pos => text[pos]? = some '['
  | binding _ _ pos => Text.WordAt text pos "let"
  | branch _ _ pos => ∃ i, Text.WordAt text i "if" ∧ Text.FirstFrom text (i + 2) pos
  | selection _ pos => Text.WordAt text pos "match"
  | arm _ => True
  | loop _ _ pos => Text.WordAt text pos "for"

section Positions

variable {text : List Char} {xs ts us ys : List Token} {t u : Token}

theorem Row.char_of_punct (h : Row text xs (t :: ts) ys) {value : String} {c : Char}
    (ht : t.has .punct value = true) (hc : value.toList = [c]) : text[t.pos]? = some c := by
  have h := h.head
  rw [← Text.head?_slice (h.pos_lt_stop List.mem_cons_self), h.slice_of_punct ht, hc]
  rfl

theorem Row.wordAt_cons (h : Row text xs (t :: ts) ys) {word : String}
    (ht : t.has .keyword word = true) : Text.WordAt text t.pos word :=
  (h.head.wordAt ht).1

/-- The token after `if` is what comes first after it. -/
theorem Row.first_after_if (h : Row text xs (t :: ts) ys)
    (hl : ∃ u, xs.getLast? = some u ∧ u.has .keyword "if" = true) :
    ∃ i, Text.WordAt text i "if" ∧ Text.FirstFrom text (i + 2) t.pos := by
  obtain ⟨u, hu, hif⟩ := hl
  obtain ⟨vs, rfl⟩ := List.getLast?_eq_some_iff.mp hu
  have hr : Row text vs ([u] ++ (t :: ts)) ys := h.widen
  obtain ⟨hword, hstop⟩ := hr.head.wordAt hif
  have hstop : u.stop = u.pos + 2 := hstop
  refine ⟨u.pos, hword, ?_, fun i hlo hhi => hr.blank_between (by omega) hhi, ?_⟩
  · rw [← hstop]
    exact hr.stop_le_pos List.mem_cons_self List.mem_cons_self
  · exact h.head.not_isBlank

/-- A spot starts with one of its tokens, which opens it. -/
theorem Spot.Made.opens {s : Spot} (hr : Row text xs ts ys) (h : s.Made text xs.getLast? ts) :
    s.Opens text ∧ ∀ p ∈ s.pos?, ∃ t ∈ ts, t.pos = p := by
  obtain ⟨h, hb⟩ := h
  cases h with
  | expression hk he =>
    obtain ⟨-, -, hpos⟩ := expressionOf_eq_ok_iff.mp he
    refine ⟨?_, by simp [pos?, hpos]⟩
    rw [Opens, hpos]
    exact hr.opener (b := .curly) hk
  | statements hbar => exact ⟨hr.char_of_punct hbar rfl, by simp [pos?]⟩
  | braced hbar => exact ⟨hr.char_of_punct hbar rfl, by simp [pos?]⟩
  | conditions hk => exact ⟨hr.opener (b := .square) hk, by simp [pos?]⟩
  | binding ht => exact ⟨hr.wordAt_cons ht, by simp [pos?]⟩
  | condition => exact ⟨hr.first_after_if hb, by simp [pos?]⟩
  | pattern => exact ⟨hr.first_after_if hb, by simp [pos?]⟩
  | selection ht => exact ⟨hr.wordAt_cons ht, by simp [pos?]⟩
  | arm => exact ⟨trivial, by simp [pos?]⟩
  | loop ht => exact ⟨hr.wordAt_cons ht, by simp [pos?]⟩

end Positions

/-- Positions that lie in the places of things in order rise. -/
theorem Along.pairwise {α : Type} {At : α → Nat → Nat → Prop} {f : α → Option Nat}
    (hf : ∀ {x a b}, At x a b → ∀ p ∈ f x, a ≤ p ∧ p < b) {lo hi : Nat} {xs : List α}
    (h : Along At lo xs hi) :
    (∀ p ∈ xs.filterMap f, lo ≤ p) ∧ (xs.filterMap f).Pairwise (· < ·) := by
  induction h with
  | nil => simp
  | @cons lo a b hi x xs hlo hx hab _ ih =>
    obtain ⟨hle, hpair⟩ := ih
    cases hp : f x with
    | none =>
      rw [List.filterMap_cons_none hp]
      exact ⟨fun p hp => by have := hle p hp; omega, hpair⟩
    | some p =>
      have hpb := hf hx p hp
      rw [List.filterMap_cons_some hp]
      refine ⟨List.forall_mem_cons.mpr ⟨by omega, fun q hq => ?_⟩,
        List.pairwise_cons.mpr ⟨fun q hq => ?_, hpair⟩⟩
      · have := hle q hq
        omega
      · have := hle q hq
        omega

/-- A spot stands between two offsets: its position lies there, and the text opens it there. -/
def Spot.Opened (text : List Char) (s : Spot) (a b : Nat) : Prop :=
  s.Opens text ∧ ∀ p ∈ s.pos?, a ≤ p ∧ p < b

/-- A parsed document is well formed: its nodes have their forms and the expressions their
contexts; its positions rise in rendering order, and each names what opens its spot. -/
theorem wellFormed_of_ofText? {text : List Char} {doc : Document}
    (h : Document.ofText? text = .ok doc) :
    (∀ node ∈ doc.nodes, node.WellFormed)
      ∧ (doc.spots.filterMap Spot.pos?).Pairwise (· < ·)
      ∧ ∀ s ∈ doc.spots, s.Opens text := by
  obtain ⟨atoms, hscan, hd⟩ := derives_of_ofText? h
  obtain ⟨hrow, hbounded⟩ := row_of_scan hscan
  have hlaid : Laid (Spot.Made text) none (classify atoms) doc.spots := hd.laid none trivial
  have halong : Along (Spot.Opened text) 0 doc.spots text.length := by
    refine hlaid.along (fun hr hm hb => ?_) hrow rfl hbounded
    obtain ⟨hopens, hpos⟩ := hm.opens hr
    refine .cons (Nat.le_refl _) ⟨hopens, fun p hp => ?_⟩ hb.1 (.nil (Nat.le_refl _))
    obtain ⟨t, ht, rfl⟩ := hpos p hp
    have := hb.2 t ht
    have := hr.pos_lt_stop ht
    omega
  refine ⟨hd.wellFormed hrow, (halong.pairwise fun hx => hx.2).2, fun s hs => ?_⟩
  obtain ⟨a, b, -, -, hopens, -⟩ := halong.exists_of_mem hs
  exact hopens

/-- A comment, then a branch with a pattern: its position is that of `let`. -/
theorem wellFormed_of_ofText?_branch :
    Document.ofText? "<!--{c}-->if let y = z {{y}}".toList
        = .ok ⟨[.comment [.expression ⟨"c", none, .comment, 4⟩],
            .choice [.mk "z" [.expression ⟨"y", none, .text, 24⟩] (some "y") 13] none],
          "<!--{c}-->if let y = z {{y}}".toList⟩
      ∧ [4, 13, 24].Pairwise (· < ·) := by
  have h : Document.ofText? "<!--{c}-->if let y = z {{y}}".toList
      = .ok ⟨[.comment [.expression ⟨"c", none, .comment, 4⟩],
          .choice [.mk "z" [.expression ⟨"y", none, .text, 24⟩] (some "y") 13] none],
        "<!--{c}-->if let y = z {{y}}".toList⟩ := by cbv
  exact ⟨h, (wellFormed_of_ofText? h).2.1⟩

end MarkupTemplate
