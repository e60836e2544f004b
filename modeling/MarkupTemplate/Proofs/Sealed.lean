import MarkupTemplate.Proofs.Action

/-!
# Fragments that do not write

A fragment can write to a sink by itself when its variables lead to a writer of it. In a sealed
evaluator it cannot; a run that completes there is a run of the evaluator itself.

* `Evaluator.sealed`: the evaluator whose expressions, conditions and patterns may not write to a
  sink.
* `Language.Discreet`: a language none of whose operations writes to a sink.
* `Evaluator.refines_evaluate` and its siblings: a sealed evaluator does what the evaluator does, or
  fails.
-/
namespace MarkupTemplate

open MarkupTemplate.Action

/-- The language, whose fragments may not write to a sink, except for statements, which are there to
write. -/
def Language.sealed (language : Language) (sink : Nat) : Language where
  limit := language.limit
  evaluate source names := (language.evaluate source names).sealed sink
  truth v := (language.truth v).sealed sink
  iter v := (language.iter v).sealed sink
  next iterator := (language.next iterator).sealed sink
  matching pattern v names := (language.matching pattern v names).sealed sink
  execute := language.execute
  format spec v := (language.format spec v).sealed sink
  typeName v := (language.typeName v).sealed sink

/-- The evaluator, whose fragments may not write to a sink, except for statements. -/
def Evaluator.sealed (ev : Evaluator) (sink : Nat) : Evaluator :=
  { ev with language := ev.language.sealed sink }

/-- No expression, condition, pattern or format of the language writes to a sink. -/
structure Language.Discreet (language : Language) (sink : Nat) : Prop where
  evaluate : ∀ source names, Leaves sink (language.evaluate source names)
  truth : ∀ v, Leaves sink (language.truth v)
  matching : ∀ pattern v names, Leaves sink (language.matching pattern v names)
  format : ∀ spec v, Leaves sink (language.format spec v)

theorem Language.discreet_sealed (language : Language) (sink : Nat) :
    (language.sealed sink).Discreet sink where
  evaluate _ _ := leaves_sealed _
  truth _ := leaves_sealed _
  matching _ _ _ := leaves_sealed _
  format _ _ := leaves_sealed _

namespace Evaluator

variable {ev : Evaluator} {sink : Nat} {p : Char → Bool}

/-- A format that succeeds is that of the language. -/
theorem format_eq_ok {v : Value} {spec : Option String} {s : Store} {text : String}
    (h : (ev.format v spec s).outcome = .ok text) :
    (ev.language.format (spec.getD "") v s).outcome = .ok text
      ∧ (ev.format v spec s).store = (ev.language.format (spec.getD "") v s).store := by
  refine orElse_eq_ok (fun e s' a he => ?_) h
  split at he
  · obtain ⟨type, -, hf, -⟩ := bind_eq_ok he
    cases hf
  · cases he

/-! ## Discreet evaluators -/

section Discreet

variable (h : ev.language.Discreet sink)
include h

theorem shows_evaluate (source : String) (scope : Bindings) :
    Shows sink p (ev.evaluate source scope) [] :=
  (h.evaluate _ _).shows.mapFailure

theorem shows_test (source : String) (scope : Bindings) :
    Shows sink p (ev.test source scope) [] :=
  (shows_evaluate h source scope).bind fun v => (h.truth v).shows.mapFailure

theorem shows_match (pattern : String) (v : Value) (scope : Bindings) :
    Shows sink p (ev.match? pattern v scope) [] := by
  unfold match?
  simp only
  split
  · exact shows_pure
  split
  · exact shows_pure
  · exact (h.matching _ v _).shows.mapFailure

theorem shows_bind (pattern : String) (v : Value) (scope : Bindings) :
    Shows sink p (ev.bind pattern v scope) [] := by
  refine (shows_match h pattern v scope).bind fun b => ?_
  cases b with
  | some b => exact shows_pure
  | none =>
    refine shows_of_fails fun s a ho => ?_
    obtain ⟨type, -, hf, -⟩ := bind_eq_ok ho
    cases hf

theorem shows_format (v : Value) (spec : Option String) :
    Shows sink p (ev.format v spec) [] := by
  intro s a ho
  obtain ⟨hok, hs⟩ := format_eq_ok ho
  rw [hs]
  exact (h.format _ v).shows s a hok

end Discreet

/-! ## Sealed evaluators -/

theorem refines_evaluate (source : String) (scope : Bindings) :
    Refines ((ev.sealed sink).evaluate source scope) (ev.evaluate source scope) :=
  (refines_sealed _).mapFailure

theorem refines_test (source : String) (scope : Bindings) :
    Refines ((ev.sealed sink).test source scope) (ev.test source scope) :=
  (refines_evaluate source scope).bind fun _ => (refines_sealed _).mapFailure

theorem refines_match (pattern : String) (v : Value) (scope : Bindings) :
    Refines ((ev.sealed sink).match? pattern v scope) (ev.match? pattern v scope) := by
  unfold match?
  simp only
  split
  · exact .refl _
  split
  · exact .refl _
  · exact (refines_sealed _).mapFailure

theorem refines_bind (pattern : String) (v : Value) (scope : Bindings) :
    Refines ((ev.sealed sink).bind pattern v scope) (ev.bind pattern v scope) := by
  refine (refines_match pattern v scope).bind fun b => ?_
  cases b with
  | some b => exact .refl _
  | none => exact (refines_sealed _).bind fun _ => .refl _

theorem refines_format (v : Value) (spec : Option String) :
    Refines ((ev.sealed sink).format v spec) (ev.format v spec) := by
  intro s a h
  obtain ⟨hok, hs⟩ := format_eq_ok h
  have hsealed : (((ev.language.format (spec.getD "") v).sealed sink) s).outcome = .ok a := hok
  obtain ⟨ho, hstore⟩ := refines_sealed _ s a hsealed
  obtain ⟨hf, hfs⟩ := orElse_of_ok ho
  exact ⟨hf, hfs.trans (hstore.trans hs.symm)⟩

end Evaluator

end MarkupTemplate
