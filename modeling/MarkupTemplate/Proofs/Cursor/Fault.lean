import MarkupTemplate.Proofs.Cursor.Tracks
import MarkupTemplate.Proofs.Text.OneLine

/-!
# Where readers fail

A reader that fails reports the start of a token, or the end of the document or of the group that it
reads. So its faults stand at the offsets of the tokens it is given, whatever tokens these are.

* `FaultCause.Plain`: a cause that readers report.
* `Token.Known`, `Cursor.Known`: tokens and cursors all of whose offsets are among some given ones.
* `Fault.Known`: a fault at one of these offsets.
* `Points`: a reader whose faults are known, with a rule for each way to build a reader.
* `Cursor.points_takeUntil`, `Cursor.points_readName`: the primitive readers.
-/
namespace MarkupTemplate

/-- A cause that readers report; the words that it is told in have no line feeds. -/
def FaultCause.Plain : FaultCause → Prop
  | scan _ | custom _ => False
  | expectedKind words _ | expectedBefore words | expectedPayloadPart words | missingHead words =>
    Text.OneLine words
  | _ => True

theorem TokenKind.oneLine_name (kind : TokenKind) : Text.OneLine kind.name := by
  cases kind <;> decide

/-- A fault that a reader reports, at a known offset. -/
structure Fault.Known (S : Nat → Prop) (f : Fault) : Prop where
  pos : S f.pos
  cause : f.cause.Plain

/-- The token starts at a known offset, and so do the tokens in it; a group also has its last
character at one. -/
inductive Token.Known (S : Nat → Prop) : Token → Prop where
  | mk {t : Token} (pos : S t.pos) (closer : t.isGroup = true → S (t.stop - 1))
      (children : ∀ u ∈ t.children, Token.Known S u) : Token.Known S t

/-- The tokens ahead are known, and so is the end. -/
structure Cursor.Known (S : Nat → Prop) (c : Cursor) : Prop where
  stop : S c.stop
  ahead : ∀ t ∈ c.ahead, t.Known S

/-- From a cursor on, the reader comes to a known cursor with a value that has a property, or fails
with a known fault. -/
def Points {α : Type} (S : Nat → Prop) (Q : α → Prop) (c : Cursor) (r : Reader α) : Prop :=
  (∀ a d, r c = .ok a d → Q a ∧ d.Known S) ∧ ∀ f d, r c = .error f d → f.Known S

section Known

variable {S : Nat → Prop} {t u : Token} {c : Cursor}

theorem Token.Known.pos (h : t.Known S) : S t.pos := by
  obtain ⟨pos, -, -⟩ := h
  exact pos

theorem Token.Known.child (h : t.Known S) (hu : u ∈ t.children) : u.Known S := by
  obtain ⟨-, -, children⟩ := h
  exact children u hu

namespace Cursor.Known

theorem skip (h : c.Known S) (n : Nat) : (c.skip n).Known S :=
  ⟨h.stop, fun t ht => h.ahead t (List.mem_of_mem_drop ht)⟩

/-- The token that stands for the end has no structure of its own. -/
theorem ending (h : c.Known S) : c.ending.Known S :=
  .mk h.stop (fun hg => by cases hg) fun _ hu => by cases hu

theorem peek (h : c.Known S) (n : Nat) : (c.peek n).Known S := by
  rw [Cursor.peek]
  cases ht : c.ahead[n]? with
  | none => exact h.ending
  | some t => exact h.ahead t (List.mem_of_getElem? ht)

theorem head (h : c.Known S) : c.head.Known S := h.peek 0

theorem inside (ht : t.Known S) (hg : t.isGroup = true) : (c.inside t).Known S := by
  obtain ⟨-, closer, children⟩ := ht
  exact ⟨closer hg, children⟩

end Cursor.Known

end Known

namespace Points

variable {S : Nat → Prop} {α β : Type} {Q : α → Prop} {R : β → Prop} {c : Cursor}

theorem congr {r s : Reader α} (h : r c = s c) (hs : Points S Q c s) : Points S Q c r := by
  unfold Points
  rw [h]
  exact hs

theorem pure (h : c.Known S) {a : α} (ha : Q a) : Points S Q c (Pure.pure a) := by
  refine ⟨fun b d hb => ?_, nofun⟩
  change EStateM.Result.ok a c = _ at hb
  cases hb
  exact ⟨ha, h⟩

theorem bind {r : Reader α} {f : α → Reader β} (hr : Points S Q c r)
    (hf : ∀ a d, r c = .ok a d → Q a → d.Known S → Points S R d (f a)) :
    Points S R c (r >>= f) := by
  cases h : r c with
  | ok a d =>
    obtain ⟨ha, hd⟩ := hr.1 a d h
    exact .congr (s := fun _ => f a d) (Window.bind_of_ok h) (hf a d h ha hd)
  | error e d =>
    refine .congr (s := fun _ => .error e d) (Window.bind_of_error h)
      ⟨nofun, fun e' d' he => ?_⟩
    cases he
    exact hr.2 e d h

theorem get_bind {f : Cursor → Reader β} (h : Points S R c (f c)) :
    Points S R c (get >>= f) := h

theorem ite {p : Prop} [Decidable p] {r s : Reader α} (hr : p → Points S Q c r)
    (hs : ¬ p → Points S Q c s) : Points S Q c (if p then r else s) := by
  split
  · next hp => exact hr hp
  · next hp => exact hs hp

theorem failAt {cause : FaultCause} {t : Token} (ht : t.Known S) (hc : cause.Plain) :
    Points S Q c (Cursor.failAt cause t) := by
  refine ⟨fun a d ha => absurd ha Window.failAt_ne_ok, fun f d hf => ?_⟩
  change EStateM.Result.error (⟨cause, t.pos⟩ : Fault) c = _ at hf
  cases hf
  exact ⟨ht.pos, hc⟩

theorem lift (h : c.Known S) {x : Except Fault α} (hok : ∀ a, x = .ok a → Q a)
    (herror : ∀ f, x = .error f → f.Known S) : Points S Q c (Cursor.lift x) := by
  cases x with
  | ok b =>
    refine ⟨fun a d ha => ?_, nofun⟩
    change EStateM.Result.ok b c = _ at ha
    cases ha
    exact ⟨hok b rfl, h⟩
  | error e =>
    refine ⟨nofun, fun f d hf => ?_⟩
    change EStateM.Result.error e c = _ at hf
    cases hf
    exact herror e rfl

/-- A reader that does nothing more than to put its result together. -/
theorem then_pure {r : Reader α} (hr : Points S Q c r) (f : α → β) :
    Points S (fun _ => True) c (r >>= fun a => Pure.pure (f a)) := by
  refine hr.bind ?_
  intro a d _ _ hd
  exact .pure hd trivial

/-- A computation without a cursor, of whose value nothing has to be known. -/
theorem lift_pure (h : c.Known S) {x : Except Fault α} (herror : ∀ f, x = .error f → f.Known S)
    (g : α → β) : Points S (fun _ => True) c (Cursor.lift x >>= fun a => Pure.pure (g a)) := by
  have hx : Points S (fun _ => True) c (Cursor.lift x) := .lift h (fun _ _ => trivial) herror
  exact hx.then_pure g

end Points

namespace Cursor

variable {S : Nat → Prop} {c : Cursor}

/-! ## Primitive readers -/

theorem points_next (h : c.Known S) : Points S (Token.Known S) c next := by
  refine ⟨fun t d ht => ?_, nofun⟩
  cases ht
  exact ⟨h.head, h.skip 1⟩

theorem points_expectKind (h : c.Known S) (kind : TokenKind) :
    Points S (fun t => t.Known S ∧ t.kind = kind) c (expectKind kind) := by
  refine (points_next h).bind ?_
  intro t d _ ht hd
  exact .ite (fun hk => .pure hd ⟨ht, hk⟩) fun _ => .failAt ht kind.oneLine_name

theorem points_expect (h : c.Known S) (kind : TokenKind) (value : String) :
    Points S (Token.Known S) c (expect kind value) := by
  refine (points_next h).bind ?_
  intro t d _ ht hd
  exact .ite (fun _ => .pure hd ht) fun _ => .failAt ht trivial

theorem points_takeAllUntil (h : c.Known S) (stop : Token → Bool) :
    Points S (fun ts => ∀ t ∈ ts, t.Known S) c (takeAllUntil stop) := by
  refine ⟨fun ts d hts => ?_, nofun⟩
  cases hts
  exact ⟨fun t ht => h.ahead t (List.mem_of_mem_take ht), h.skip _⟩

theorem points_takeUntil (h : c.Known S) (stop : Token → Bool) {what : String}
    (hwhat : Text.OneLine what) :
    Points S (fun ts => ∀ t ∈ ts, t.Known S) c (takeUntil stop what) := by
  refine (points_takeAllUntil h stop).bind ?_
  intro ts d _ hts hd
  exact .get_bind (.ite (fun _ => .failAt hd.head hwhat) fun _ => .pure hd hts)

/-! ## Names and closing tags -/

theorem points_readName (h : c.Known S) : Points S (fun _ => True) c readName := by
  unfold Points readName
  split
  · refine ⟨fun name d hd => ?_, nofun⟩
    cases hd
    exact ⟨trivial, h.skip 1⟩
  · split
    · refine ⟨fun name d hd => ?_, nofun⟩
      cases hd
      exact ⟨trivial, h.skip _⟩
    · refine ⟨nofun, fun f d hf => ?_⟩
      cases hf
      exact ⟨h.head.pos, trivial⟩

theorem points_readCloseTag (h : c.Known S) : Points S (fun _ => True) c readCloseTag := by
  refine (points_expectKind h .closeTag).bind ?_
  intro _ d _ _ hd
  refine (points_readName hd).bind ?_
  intro name e _ _ he
  refine (points_next he).bind ?_
  intro t g _ ht hg
  refine .ite (fun _ => .failAt ht trivial) fun _ => ?_
  exact .ite (fun _ => .pure hg trivial) fun _ => .failAt ht trivial

/-! ## Expressions -/

theorem known_of_splitExpression {t : Token} (ht : t.Known S) {f : Fault}
    (h : splitExpression t = .error f) : f.Known S := by
  unfold splitExpression at h
  split at h
  · cases h
    exact ⟨ht.pos, trivial⟩
  · dsimp only at h
    split at h
    · cases h
      exact ⟨ht.pos, trivial⟩
    · cases h

end Cursor

end MarkupTemplate
