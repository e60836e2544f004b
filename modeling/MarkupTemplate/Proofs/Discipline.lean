import MarkupTemplate.Proofs.Node.Count
import MarkupTemplate.Proofs.Rebuilt

/-!
# Discipline of cursors

Whatever a parser does with a cursor, in success or failure, the cursor stays over its tokens and
never goes back. Hence the loops of a parser end, and what they build is bounded by the text.

* `Cursor.Over`: a cursor over some tokens.
* `Operation`: what a parser does with a cursor; `Operation.run`: one thing after the other.
* `Cursor.disciplined`: where cursors come to, that loops end, and how much a parser builds.
-/
namespace MarkupTemplate

open Cursor Node

/-! ## Operations -/

/-- The cursor stands before one of the tokens or behind the last, and has the rest ahead. -/
def Cursor.Over (tokens : List Token) (c : Cursor) : Prop :=
  c.index ≤ tokens.length ∧ c.ahead = tokens.drop c.index

/-- What a parser does with a cursor. -/
inductive Operation where
  | peek (offset : Nat)
  | sees (kind : TokenKind) (value : Option String)
  | next
  | expect (kind : TokenKind) (value : Option String)
  | name
  | closeTag
  | expression (t : Token)
  | takeUntil (stop : Token → Bool) (what : String)
  | takeAllUntil (stop : Token → Bool)
  | attr
  | closure
  | node

namespace Operation

/-- What an operation answers. -/
def Answer : Operation → Type
  | peek _ | next | expect .. => Token
  | sees .. => Bool
  | name | closeTag => String
  | expression _ => String × Option String
  | takeUntil .. | takeAllUntil _ => List Token
  | attr => Attribute
  | closure => Closure
  | node => Node

/-- The reader of an operation. -/
def read : (o : Operation) → Reader o.Answer
  | peek offset => do return (← get).peek offset
  | sees kind none => do return (← get).isAt kind
  | sees kind (some value) => do return (← get).sees kind value
  | next => Cursor.next
  | expect kind none => expectKind kind
  | expect kind (some value) => Cursor.expect kind value
  | name => readName
  | closeTag => readCloseTag
  | expression t => Cursor.expression t
  | takeUntil stop what => Cursor.takeUntil stop what
  | takeAllUntil stop => Cursor.takeAllUntil stop
  | attr => readAttribute
  | closure => readClosure
  | node => readNode

/-- Where some operations leave a cursor, each in success or failure. -/
def run (operations : List Operation) (c : Cursor) : Cursor :=
  operations.foldl (fun d o => cursorOf (o.read d)) c

/-- No operation moves a cursor to the left. -/
theorem forward_read (o : Operation) : Forward o.read := by
  cases o with
  | peek => exact Forward.get.bind fun _ => .pure _
  | sees kind value => cases value <;> exact Forward.get.bind fun _ => .pure _
  | next => exact .next
  | expect kind value =>
    cases value with
    | none => exact forward_expectKind kind
    | some value => exact forward_expect kind value
  | name => exact advances_readName.1
  | closeTag => exact advances_readCloseTag.1
  | expression t => exact .lift _
  | takeUntil stop what => exact forward_takeUntil stop what
  | takeAllUntil stop => exact .takeAllUntil stop
  | attr => exact advances_readAttribute.1
  | closure => exact advances_readClosure.1
  | node => exact advances_readNode.1

theorem reaches_run (operations : List Operation) (c : Cursor) : c.Reaches (run operations c) := by
  induction operations generalizing c with
  | nil => exact .refl c
  | cons o operations ih => exact (o.forward_read c).trans (ih _)

/-- Names, closing tags, attributes, closures and nodes take a token. -/
theorem advances_read {o : Operation} (h : o ∈ [name, closeTag, attr, closure, node]) :
    Advances o.read := by
  simp only [List.mem_cons, List.not_mem_nil, or_false] at h
  obtain rfl | rfl | rfl | rfl | rfl := h
  · exact advances_readName
  · exact advances_readCloseTag
  · exact advances_readAttribute
  · exact advances_readClosure
  · exact advances_readNode

end Operation

namespace Cursor

variable {tokens : List Token} {c d : Cursor}

/-! ## Cursors over tokens -/

/-- A cursor stays over its tokens. -/
theorem Over.reaches (h : c.Over tokens) (hd : c.Reaches d) : d.Over tokens := by
  obtain ⟨n, rfl⟩ := hd
  obtain ⟨hindex, hahead⟩ := h
  have hlength := congrArg List.length hahead
  rw [List.length_drop] at hlength
  refine ⟨?_, ?_⟩
  · simp only [skip]
    omega
  · -- the tokens are dropped one by one or all of them
    simp only [skip]
    rw [hlength, hahead, List.drop_drop]
    by_cases hn : n ≤ tokens.length - c.index
    · rw [Nat.min_eq_left hn]
    · rw [Nat.min_eq_right (by omega), List.drop_eq_nil_of_le (by omega),
        List.drop_eq_nil_of_le (by omega)]

theorem index_lt_of_advances {α : Type} {r : Reader α} (hr : Advances r) {a : α}
    (h : r c = .ok a d) : c.index < d.index := by
  have hindex := (hr.1.reaches h).index_add
  have hlt := hr.2 c a d h
  omega

/-! ## Tokens of a text -/

/-- Ahead of a cursor in a text are no more tokens than the text has atoms. -/
theorem Visits.countAll_le {text : List Char} (h : c.Visits text) :
    Token.countAll c.ahead ≤ Atom.countAll (atomsOf text) := by
  induction h with
  | @start c h =>
    obtain ⟨as, has⟩ := (start h).scans
    rw [tokenize, has] at h
    obtain rfl := Except.ok.inj h
    rw [atomsOf_of_scan has]
    exact countAll_classify_le as
  | @skip c _ n ih => exact Nat.le_trans (Token.countAll_drop_le n c.ahead) ih
  | inside _ hg ih => exact Nat.le_trans (Nat.le_of_lt (Token.countAll_children_lt hg)) ih

/-! ## Discipline -/

/-- Whatever operations are run on a cursor over some tokens, each in success or failure, the cursor
never goes back and stays over the tokens; at the end of them, the next token leaves it there. A
name, a closing tag, an attribute, a closure or a node that is read takes a token. Every loop of the
parser ends: its rounds are no more than the tokens that they take, and from every cursor on some
rounds come to where its test stops it or a round fails, which is then what the loop answers. And
what a parser builds on any way through a text, and so the document, is made of no more than the
text has atoms. -/
theorem disciplined :
    (∀ (tokens : List Token) (c : Cursor) (operations : List Operation), c.Over tokens →
        c.index ≤ (Operation.run operations c).index ∧ (Operation.run operations c).Over tokens)
      ∧ (∀ (tokens : List Token) (c : Cursor), c.Over tokens → c.index = tokens.length →
        Operation.run [.next] c = c)
      ∧ (∀ o ∈ [Operation.name, .closeTag, .attr, .closure, .node], ∀ c a d,
        o.read c = .ok a d → c.index < d.index)
      ∧ (∀ (k : Repetition) (c : Cursor),
        (∀ as d, k.loop.Rounds c as d → c.Reaches d ∧ c.index + as.length ≤ d.index)
          ∧ ∃ as d, k.loop.Rounds c as d
            ∧ ((k.loop.stops d = true
                ∧ k.loop.run c = (k.loop.exit d).map fun b => as.foldr k.loop.push b)
              ∨ ∃ f e, k.loop.stops d = false ∧ k.loop.body d = .error f e
                ∧ k.loop.run c = .error f))
      ∧ (∀ (text : List Char) (c : Cursor) (n : Nat), c.Visits text → c.Builds n →
        n ≤ Atom.countAll (atomsOf text))
      ∧ ∀ (text : List Char) (doc : Document), Document.ofText? text = .ok doc →
        Node.countAll doc.nodes ≤ Atom.countAll (atomsOf text) := by
  refine ⟨fun tokens c operations h => ?_, fun tokens c h hend => ?_, fun o ho c a d h => ?_,
    fun k c => ⟨fun as d h => ⟨h.reaches, h.index_le⟩, k.loop.ends c⟩, fun text c n hc hn => ?_,
    fun text doc h => ?_⟩
  · have hreach := Operation.reaches_run operations c
    exact ⟨hreach.index_add.1, h.reaches hreach⟩
  · have hnil : c.ahead = [] := by rw [h.2, hend, List.drop_length]
    exact skip_of_nil hnil 1
  · exact index_lt_of_advances (Operation.advances_read ho) h
  · exact Nat.le_trans (hn.le hc.real) hc.countAll_le
  · obtain ⟨atoms, hscan, hd⟩ := derives_of_ofText? h
    rw [atomsOf_of_scan hscan]
    exact Nat.le_trans hd.count_le (countAll_classify_le atoms)

/-- In a comment and a literal behind it, a name is looked for, then a node, then the next token. -/
theorem disciplined_comment :
    (Operation.run [.name, .node, .next] (ofText "<!--1 2-->3".toList)).Over
        (tokensOf "<!--1 2-->3".toList)
      ∧ (∃ d, readNode (ofText "<!--1 2-->3".toList) = .ok (.comment [.literal "1", .literal "2"]) d
        ∧ (ofText "<!--1 2-->3".toList).index < d.index)
      ∧ 3 + 0 ≤ Atom.countAll (atomsOf "<!--1 2-->3".toList)
      ∧ Node.countAll [.comment [.literal "1", .literal "2"], .text "3"]
        ≤ Atom.countAll (atomsOf "<!--1 2-->3".toList) := by
  obtain ⟨hover, -, htakes, -, hbuilds, hdocument⟩ := disciplined
  have hstart : Visits "<!--1 2-->3".toList (ofText "<!--1 2-->3".toList) := .start (by cbv)
  have hdoc : Document.ofText? "<!--1 2-->3".toList
      = .ok ⟨[.comment [.literal "1", .literal "2"], .text "3"], "<!--1 2-->3".toList⟩ := by cbv
  obtain ⟨d, hnode⟩ : ∃ d, readNode (ofText "<!--1 2-->3".toList)
      = .ok (.comment [.literal "1", .literal "2"]) d := ⟨_, by cbv⟩
  have hat : (ofText "<!--1 2-->3".toList).isAt .closeTag = false := by cbv
  have hitem : readItem (ofText "<!--1 2-->3".toList)
      = .ok (.comment [.literal "1", .literal "2"]) d := by
    rw [readItem, hat, if_neg Bool.false_ne_true, hnode]
  exact ⟨(hover _ _ [.name, .node, .next] ⟨Nat.zero_le _, rfl⟩).2,
    ⟨d, hnode, htakes .node (by simp) _ _ _ hnode⟩,
    hbuilds _ _ _ hstart (.round .document hitem (.none d)), hdocument _ _ hdoc⟩

end Cursor

end MarkupTemplate
