import MarkupTemplate.Proofs.Node.Derivation
import MarkupTemplate.Proofs.Node.Rounds

/-!
# Nodes and tokens counted

A template has no more nodes than its text has atoms, both counted at all depths: the tokens of a
node are no fewer than the nodes, attributes, values, parts, conditions, branches and arms that it
is made of.

* `Atom.count`, `Token.count`: atoms and tokens with those inside them.
* `Node.count`: a node with all that it is made of.
* `Derives.count_le`: what tokens are derived as is made of no more than there are tokens.
* `Cursor.Builds.le`: so is whatever the loops of the parser have built on their way.
-/
namespace MarkupTemplate

open Cursor Node

/-! ## Atoms and tokens -/

namespace Atom

mutual

/-- The atom and the atoms in it. -/
def count : Atom → Nat
  | leaf .. => 1
  | group _ _ _ _ children => 1 + countAll children

/-- The atoms and the atoms in them. -/
def countAll : List Atom → Nat
  | [] => 0
  | a :: as => count a + countAll as

end

theorem countAll_drop_le (n : Nat) (as : List Atom) : countAll (as.drop n) ≤ countAll as := by
  induction n generalizing as with
  | zero => exact Nat.le_refl _
  | succ n ih =>
    cases as with
    | nil => exact Nat.le_refl _
    | cons a as =>
      have := ih as
      rw [List.drop_succ_cons, countAll]
      omega

end Atom

namespace Token

mutual

/-- The token and the tokens in it. -/
def count : Token → Nat
  | mk _ _ _ _ _ children => 1 + countAll children

/-- The tokens and the tokens in them. -/
def countAll : List Token → Nat
  | [] => 0
  | t :: ts => count t + countAll ts

end

theorem count_eq (t : Token) : t.count = 1 + countAll t.children := by
  cases t
  rfl

@[simp] theorem countAll_nil : countAll [] = 0 := rfl

@[simp] theorem countAll_cons (t : Token) (ts : List Token) :
    countAll (t :: ts) = 1 + countAll t.children + countAll ts := by
  rw [countAll, count_eq]

@[simp] theorem countAll_append (ts us : List Token) :
    countAll (ts ++ us) = countAll ts + countAll us := by
  induction ts with
  | nil => rw [List.nil_append, countAll_nil, Nat.zero_add]
  | cons t ts ih =>
    rw [List.cons_append, countAll_cons, countAll_cons, ih]
    omega

theorem countAll_pos {ts : List Token} (h : ts ≠ []) : 0 < countAll ts := by
  obtain ⟨t, ts, rfl⟩ := List.exists_cons_of_ne_nil h
  rw [countAll_cons]
  omega

theorem countAll_children_lt {t : Token} {ts : List Token} (h : t ∈ ts) :
    countAll t.children < countAll ts := by
  obtain ⟨us, vs, rfl⟩ := List.append_of_mem h
  rw [countAll_append, countAll_cons]
  omega

theorem countAll_drop_le (n : Nat) (ts : List Token) : countAll (ts.drop n) ≤ countAll ts := by
  conv => rhs; rw [← ts.take_append_drop n, countAll_append]
  exact Nat.le_add_left _ _

theorem length_le_countAll (ts : List Token) : ts.length ≤ countAll ts := by
  induction ts with
  | nil => exact Nat.le_refl _
  | cons t ts ih =>
    rw [List.length_cons, countAll_cons]
    omega

end Token

/-- Atoms have no more tokens than there are atoms. -/
theorem countAll_classify_le (as : List Atom) :
    Token.countAll (classify as) ≤ Atom.countAll as := by
  fun_induction classify as with
  | case1 => exact Nat.le_refl _
  | case2 b pos stop inner children as ih ih' =>
    rw [Token.countAll_cons, Atom.countAll, Atom.count]
    exact Nat.add_le_add (Nat.add_le_add_left ih 1) ih'
  | case3 value pos stop as spelling markerKind markerStop hm ih =>
    have hdrop := Atom.countAll_drop_le (spelling.length - 1) as
    rw [Token.countAll_cons, Atom.countAll, Atom.count]
    exact Nat.add_le_add_left (Nat.le_trans ih hdrop) 1
  | case4 value pos stop as hm ih =>
    rw [Token.countAll_cons, Atom.countAll, Atom.count]
    exact Nat.add_le_add_left ih 1
  | case5 kind value pos stop as h ih =>
    rw [Token.countAll_cons, Atom.countAll, Atom.count]
    exact Nat.add_le_add_left ih 1

/-! ## Nodes -/

namespace AttributeValue

mutual

/-- The value and its parts and conditions. -/
def count : AttributeValue → Nat
  | conditional items _ => 1 + items.length
  | concat parts => 1 + countAll parts
  | literal _ | expression _ | closure _ | unsupported _ => 1

/-- The values and what they are made of. -/
def countAll : List AttributeValue → Nat
  | [] => 0
  | v :: vs => count v + countAll vs

end

theorem countAll_ofPart (parts : List Part) : countAll (parts.map ofPart) = parts.length := by
  induction parts with
  | nil => rfl
  | cons part parts ih =>
    rw [List.map_cons, countAll, ih, List.length_cons, Nat.add_comm]
    cases part <;> rfl

end AttributeValue

/-- The attribute and its value. -/
def Attribute.count (a : Attribute) : Nat := 1 + (a.value.map AttributeValue.count).getD 0

mutual

/-- The node and what it is made of: attributes with their values, parts, nodes, branches and
arms. -/
def Node.count : Node → Nat
  | .element _ attributes _ children _ =>
    1 + (attributes.map Attribute.count).sum + Node.countAll children
  | .comment parts | .cdata parts => 1 + parts.length
  | .choice branches otherwise => 1 + Branch.countAll branches + Node.countOption otherwise
  | .selection _ arms _ => 1 + Arm.countAll arms
  | .loop _ _ body _ => 1 + Node.countAll body
  | .text _ | .expression _ | .closure _ | .doctype _ | .instruction _ | .binding .. |
    .unsupported _ => 1

/-- The nodes and what they are made of. -/
def Node.countAll : List Node → Nat
  | [] => 0
  | node :: nodes => Node.count node + Node.countAll nodes

/-- The nodes of a last resort, if there is one, and what they are made of. -/
def Node.countOption : Option (List Node) → Nat
  | none => 0
  | some nodes => Node.countAll nodes

/-- The branch and what its nodes are made of. -/
def Branch.count : Branch → Nat
  | .mk _ body _ _ => 1 + Node.countAll body

/-- The branches and what they are made of. -/
def Branch.countAll : List Branch → Nat
  | [] => 0
  | branch :: branches => Branch.count branch + Branch.countAll branches

/-- The arm and what its nodes are made of. -/
def Arm.count : Arm → Nat
  | .mk _ body => 1 + Node.countAll body

/-- The arms and what they are made of. -/
def Arm.countAll : List Arm → Nat
  | [] => 0
  | arm :: arms => Arm.count arm + Arm.countAll arms

end

/-- The phrase and what it is made of. -/
def Phrase.count : Phrase → Nat
  | .node n => n.count
  | .nodes ns | .block ns | .body ns => Node.countAll ns
  | .branches bs otherwise => Branch.countAll bs + Node.countOption otherwise
  | .arms as => Arm.countAll as

/-! ## Tokens that nodes are made of -/

section Derived

variable {source : List Char} {ts : List Token}

theorem Name.ne_nil {name : String} (h : Name ts name) : ts ≠ [] := by
  cases h <;> exact List.cons_ne_nil _ _

theorem CloseTag.ne_nil {name : String} (h : CloseTag ts name) : ts ≠ [] := by
  cases h
  exact List.cons_ne_nil _ _

theorem Spelled.ne_nil {spot : Spot} (h : Spelled source ts spot) : ts ≠ [] := by
  cases h <;> simp

theorem DerivesItems.length_le {items : List (String × String)}
    (h : DerivesItems source ts items) : items.length ≤ ts.length := by
  induction h with
  | nil => exact Nat.le_refl _
  | last => simp
  | cons _ _ _ _ _ ih =>
    simp only [List.length_cons, List.length_append]
    omega

theorem DerivesParts.length_eq {context : EscapeContext} {parts : List Part}
    (h : DerivesParts source context ts parts) : parts.length = ts.length := by
  induction h with
  | nil => rfl
  | literal _ _ ih | expression _ _ _ ih => rw [List.length_cons, List.length_cons, ih]

theorem DerivesValue.count_le {v : AttributeValue} (h : DerivesValue source ts v) :
    v.count ≤ Token.countAll ts := by
  cases h with
  | literal => exact Token.countAll_pos (List.cons_ne_nil _ _)
  | expression h => exact Token.countAll_pos h.ne_nil
  | closure h => exact Token.countAll_pos h.ne_nil
  | conditional h =>
    cases h with
    | @conditions t items _ h =>
      have hlength := h.length_le
      have hchildren := Token.length_le_countAll t.children
      rw [AttributeValue.count, Token.countAll_cons, Token.countAll_nil]
      omega
  | @concat t parts _ h =>
    have hlength := h.length_eq
    have hchildren := Token.length_le_countAll t.children
    rw [AttributeValue.count, AttributeValue.countAll_ofPart, Token.countAll_cons,
      Token.countAll_nil]
    omega

theorem DerivesAttributes.count_le {attributes : List Attribute}
    (h : DerivesAttributes source ts attributes) :
    (attributes.map Attribute.count).sum ≤ Token.countAll ts := by
  induction h with
  | nil => exact Nat.le_refl _
  | bare hn _ ih =>
    have hname := Token.countAll_pos hn.ne_nil
    rw [List.map_cons, List.sum_cons, Token.countAll_append, Attribute.count]
    dsimp only [Option.map_none, Option.getD_none]
    omega
  | valued hn _ hv _ ih =>
    have hname := Token.countAll_pos hn.ne_nil
    have hvalue := hv.count_le
    rw [List.map_cons, List.sum_cons, Token.countAll_append, Token.countAll_cons,
      Token.countAll_append, Attribute.count]
    dsimp only [Option.map_some, Option.getD_some]
    omega

/-- What tokens are derived as is made of no more than there are tokens. -/
theorem Derives.count_le {phrase : Phrase} (h : Derives source ts phrase) :
    phrase.count ≤ Token.countAll ts := by
  induction h with
  | text | doctype | instruction => exact Token.countAll_pos (List.cons_ne_nil _ _)
  | stray h => exact Token.countAll_pos h.ne_nil
  | expression h | closure h | binding h => exact Token.countAll_pos h.ne_nil
  | void _ _ ha =>
    have hattributes := ha.count_le
    simp only [Phrase.count, Node.count, Node.countAll, Token.countAll_cons,
      Token.countAll_append]
    omega
  | element _ _ ha _ _ _ ih =>
    have hattributes := ha.count_le
    simp only [Phrase.count, Node.count, Token.countAll_cons, Token.countAll_append] at ih ⊢
    omega
  | @comment _ _ ts _ _ h =>
    have hparts := h.length_eq
    have htokens := Token.length_le_countAll ts
    simp only [Phrase.count, Node.count, Token.countAll_cons, Token.countAll_append]
    omega
  | @cdata _ outer inner _ _ _ _ hi _ h =>
    have hparts := h.length_eq
    have htokens := Token.length_le_countAll inner.children
    have hinner := Token.countAll_children_lt (mem_of_cdataBody? hi)
    simp only [Phrase.count, Node.count, Token.countAll_cons]
    omega
  | choice _ _ ih =>
    simp only [Phrase.count, Node.count, Token.countAll_cons] at ih ⊢
    omega
  | selection hs _ _ ih =>
    have hhead := Token.countAll_pos hs.ne_nil
    simp only [Phrase.count, Node.count, Token.countAll_append, Token.countAll_cons] at ih ⊢
    omega
  | loop hs _ ih =>
    have hhead := Token.countAll_pos hs.ne_nil
    simp only [Phrase.count, Node.count, Token.countAll_append] at ih ⊢
    omega
  | noNodes | noArms => exact Nat.zero_le _
  | nodes _ _ ih ih' =>
    simp only [Phrase.count, Node.countAll, Token.countAll_append] at ih ih' ⊢
    omega
  | block _ _ ih =>
    simp only [Phrase.count, Token.countAll_cons] at ih ⊢
    omega
  | blockBody _ ih => exact ih
  | nodeBody _ ih =>
    simp only [Phrase.count, Node.countAll] at ih ⊢
    omega
  | branch hs _ ih =>
    have hhead := Token.countAll_pos hs.ne_nil
    simp only [Phrase.count, Branch.countAll, Branch.count, Node.countOption,
      Token.countAll_append] at ih ⊢
    omega
  | otherwise hs _ _ _ ih ih' =>
    have hhead := Token.countAll_pos hs.ne_nil
    simp only [Phrase.count, Branch.countAll, Branch.count, Node.countOption,
      Token.countAll_append, Token.countAll_cons] at ih ih' ⊢
    omega
  | elseIf hs _ _ _ _ ih ih' =>
    have hhead := Token.countAll_pos hs.ne_nil
    simp only [Phrase.count, Branch.countAll, Branch.count, Token.countAll_append,
      Token.countAll_cons] at ih ih' ⊢
    omega
  | arm hs _ _ _ ih ih' =>
    have hhead := Token.countAll_pos hs.ne_nil
    simp only [Phrase.count, Arm.countAll, Arm.count, Token.countAll_append] at ih ih' ⊢
    omega

end Derived

/-! ## What loops build -/

/-- How much the round of a loop builds: a node, an attribute, a branch or an arm with what it is
made of, a part or an item; the tokens of a payload stay text. -/
def Node.Repetition.count : (k : Repetition) → k.loop.Item → Nat
  | document => Node.count
  | children _ => Node.count
  | attributes _ _ => Attribute.count
  | conditions => fun _ => 1
  | parts _ _ _ => fun _ => 1
  | tokens _ => fun _ => 0
  | arms => Arm.count
  | branches => Branch.count

namespace Cursor

/-- So much may have been built from a cursor on: a parser has gone to the right, into groups and
through whole rounds of its loops. -/
inductive Builds : Cursor → Nat → Prop where
  | none (c : Cursor) : Builds c 0
  | skip {c : Cursor} {m : Nat} (n : Nat) (h : Builds (c.skip n) m) : Builds c m
  | inside {c : Cursor} {g : Token} {us : List Token} {m n : Nat} (hc : c.ahead = g :: us)
      (h : Builds (c.inside g) m) (hr : Builds (c.skip 1) n) : Builds c (m + n)
  | round {c d : Cursor} {n : Nat} (k : Repetition) {a : k.loop.Item}
      (h : k.loop.body c = .ok a d) (hr : Builds d n) : Builds c (k.count a + n)

variable {c d : Cursor}

theorem Real.of_reaches (h : c.Real) (hd : c.Reaches d) : d.Real := by
  obtain ⟨n, rfl⟩ := hd
  exact h.skip n

theorem Takes.countAll {ts : List Token} (h : c.Takes ts d) :
    Token.countAll c.ahead = Token.countAll ts + Token.countAll d.ahead := by
  rw [h.1, Token.countAll_append]

theorem Reaches.countAll_le (h : c.Reaches d) :
    Token.countAll d.ahead ≤ Token.countAll c.ahead := by
  obtain ⟨n, rfl⟩ := h
  exact Token.countAll_drop_le n c.ahead

/-- A reader that takes a token leaves fewer tokens, at all depths. -/
theorem countAll_lt_of_advances {α : Type} {r : Reader α} {a : α} (hr : Advances r)
    (h : r c = .ok a d) : Token.countAll d.ahead < Token.countAll c.ahead := by
  have hlt := hr.2 c a d h
  obtain ⟨n, rfl⟩ := hr.1.reaches h
  have hne : c.ahead.take n ≠ [] := by
    intro hnil
    have hsplit := c.ahead.take_append_drop n
    rw [hnil, List.nil_append] at hsplit
    exact Nat.lt_irrefl _ (hsplit ▸ hlt)
  have hsplit := congrArg Token.countAll (c.ahead.take_append_drop n)
  have hpos := Token.countAll_pos hne
  rw [Token.countAll_append] at hsplit
  exact Nat.lt_of_lt_of_eq (Nat.lt_add_of_pos_left hpos) hsplit

end Cursor

namespace Node

variable {c d : Cursor}

/-- A reader whose answers are derived from tokens builds no more than it takes. -/
theorem Sound.count_le {α : Type} {r : Reader α} {phrase : α → Phrase} (hr : Sound c r phrase)
    {a : α} (h : r c = .ok a d) :
    (phrase a).count + Token.countAll d.ahead ≤ Token.countAll c.ahead := by
  obtain ⟨ts, htakes, hd⟩ := hr a d h
  rw [htakes.countAll]
  exact Nat.add_le_add_right hd.count_le _

theorem sound_readItem (hc : c.Real) : Sound c readItem .node := by
  intro node d h
  obtain ⟨-, name, hname, rfl⟩ | ⟨-, h⟩ := readItem_eq_ok_iff.mp h
  · obtain ⟨ts, htakes, hclose⟩ := takes_of_readCloseTag hname
    exact ⟨ts, htakes, .stray hclose⟩
  · exact derives_of_readNode c hc node d h

theorem count_le_of_readAttribute {a : Attribute} (h : readAttribute c = .ok a d) :
    a.count + Token.countAll d.ahead ≤ Token.countAll c.ahead := by
  obtain ⟨ts, htakes, hts⟩ := takes_of_readAttribute h
  have hcount := (hts .nil).count_le
  rw [List.append_nil, List.map_singleton, List.sum_singleton] at hcount
  rw [htakes.countAll]
  exact Nat.add_le_add_right hcount _

theorem count_le_of_readArm (hc : c.Real) {arm : Arm} (h : readArm c = .ok arm d) :
    arm.count + Token.countAll d.ahead ≤ Token.countAll c.ahead := by
  obtain ⟨p, e, h₁, h⟩ := Window.bind_eq_ok h
  obtain ⟨body, f, h₂, h⟩ := Window.bind_eq_ok h
  obtain ⟨_, g, h₃, h⟩ := Window.bind_eq_ok h
  injection h with h₄ h₅
  subst h₄ h₅
  obtain ⟨ts, t₁, hs⟩ := spelled_of_readArmHead h₁
  have hhead := Token.countAll_pos hs.ne_nil
  have hbody := Sound.count_le (derives_of_readArmBody e (hc.of_takes t₁)) h₂
  have hcomma := (forward_skipComma.reaches h₃).countAll_le
  rw [t₁.countAll, Arm.count]
  rw [Phrase.count] at hbody
  omega

theorem count_le_of_readElseIf (hc : c.Real) {branch : Branch} (h : readElseIf c = .ok branch d) :
    branch.count + Token.countAll d.ahead ≤ Token.countAll c.ahead := by
  obtain ⟨branch, e, h₁, h⟩ := Window.bind_eq_ok h
  obtain ⟨t, f, h₂, h⟩ := Window.bind_eq_ok h
  obtain ⟨u, g, h₃, h⟩ := Window.bind_eq_ok h
  injection h with h₄ h₅
  subst h₄ h₅
  obtain ⟨head, k, h₄, h₁⟩ := Window.bind_eq_ok h₁
  obtain ⟨body, l, h₅, h₁⟩ := Window.bind_eq_ok h₁
  injection h₁ with h₆ h₇
  subst h₆ h₇
  obtain ⟨ts, t₁, hs⟩ := spelled_of_readBranchHead h₄
  have hhead := Token.countAll_pos hs.ne_nil
  have hbody := Sound.count_le (derives_of_readBlock k (hc.of_takes t₁)) h₅
  have helse := ((forward_expect _ _).reaches h₂).countAll_le
  have hif := ((forward_expect _ _).reaches h₃).countAll_le
  rw [t₁.countAll, Branch.count]
  rw [Phrase.count] at hbody
  omega

/-- A round of a loop builds no more than it takes. -/
theorem Repetition.count_le (k : Repetition) (hc : c.Real) {a : k.loop.Item}
    (h : k.loop.body c = .ok a d) :
    k.count a + Token.countAll d.ahead ≤ Token.countAll c.ahead := by
  cases k with
  | document => exact Sound.count_le (sound_readItem hc) h
  | children => exact Sound.count_le (derives_of_readNode c hc) h
  | attributes => exact count_le_of_readAttribute h
  | conditions =>
    have hlt := countAll_lt_of_advances advances_readCondition h
    rwa [← Nat.succ_le_iff, ← Nat.one_add] at hlt
  | parts context cause =>
    have hlt := countAll_lt_of_advances (advances_readPart context cause) h
    rwa [← Nat.succ_le_iff, ← Nat.one_add] at hlt
  | tokens =>
    exact (Nat.zero_add _).symm ▸ (Forward.next.reaches h).countAll_le
  | arms => exact count_le_of_readArm hc h
  | branches => exact count_le_of_readElseIf hc h

end Node

/-- What is built from a cursor on is no more than there are tokens ahead of it. -/
theorem Cursor.Builds.le {c : Cursor} {n : Nat} (h : c.Builds n) (hc : c.Real) :
    n ≤ Token.countAll c.ahead := by
  induction h with
  | none => exact Nat.zero_le _
  | skip n _ ih => exact Nat.le_trans (ih (hc.skip n)) (Token.countAll_drop_le n _)
  | @inside c g us m n hahead _ _ ih ih' =>
    have hinside := ih (hc.child (by rw [hahead]; exact List.mem_cons_self))
    have hrest := ih' (hc.skip 1)
    have hskip : (c.skip 1).ahead = us := congrArg (List.drop 1) hahead
    rw [show (c.inside g).ahead = g.children from rfl] at hinside
    rw [hskip] at hrest
    rw [hahead, Token.countAll_cons]
    omega
  | @round c d n k a h _ ih =>
    have hround := k.count_le hc h
    have hrest := ih (hc.of_reaches (k.loop.forward.reaches h))
    omega

end MarkupTemplate
