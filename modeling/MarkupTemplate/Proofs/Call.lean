import MarkupTemplate.Host.Run
import MarkupTemplate.Proofs.Script

/-!
# How calls fail

A call of an evaluator runs host code. When it fails, the error is one of the evaluator's own, which
has no place yet, or a template error that the host code raised, which passes as it is. An error of
the host escapes a call in two ways only: from the making of an iterator, unless it is about the
type of the value, and from a format, unless it is about the value or its type.

* `Call.hosted`: the host code of a call.
* `Call.foreign?`: the template error that the host code of a call raises.
* `Call.Leaks`: the errors of the host that escape a call.
* `Call.ends_of_error`: how a call that fails ends.
-/
namespace MarkupTemplate

open MarkupTemplate.Action

/-- Every value of the language has a type with a name. -/
def Language.NamesTypes (language : Language) : Prop :=
  ∀ v s, ∃ type, (language.typeName v s).outcome = .ok type

/-- A failure that is neither about the type nor about an exhausted iterator stays as it is. -/
theorem Failure.notIterable_of_ne {source : String} {e : HostError} (ht : e.kind ≠ .type)
    (hs : e.kind ≠ .stopIteration) : (Failure.host e).notIterable source = .host e := by
  obtain ⟨kind, text⟩ := e
  cases kind with
  | type => exact absurd rfl ht
  | stopIteration => exact absurd rfl hs
  | _ => rfl

theorem Host.namesTypes_language (level : Nat) : (Host.language level).NamesTypes := by
  intro v s
  show ∃ type, (Object.className v s).outcome = .ok type
  cases v with
  | object id =>
    show ∃ type, (Object.typeName (.object id) s).outcome = .ok type
    rw [Object.typeName, (bind_of_ok (x := Action.cell? id) rfl).1]
    cases s.cell? id <;> exact ⟨_, rfl⟩
  | method _ m => cases m <;> exact ⟨_, rfl⟩
  | _ => exact ⟨_, rfl⟩

namespace Call

/-- What a call runs in the host language. The wildcard and a name alone run nothing. -/
def hosted (ev : Evaluator) : Call → Action Unit
  | evaluate source scope => do
    let _ ← ev.language.evaluate source (ev.names scope)
  | test source scope => do
    let _ ← ev.language.truth (← ev.language.evaluate source (ev.names scope))
  | iterate source scope => do
    let _ ← ev.language.iter (← ev.language.evaluate source (ev.names scope))
  | next _ iterator => do
    let _ ← ev.language.next iterator
  | matching pattern v scope | bind pattern v scope =>
    let p := Evaluator.trimmed pattern
    if p = "_" ∨ Host.isCapture p then pure ()
    else do let _ ← ev.language.matching p v (ev.names scope)
  | execute source scope => ev.language.execute source (ev.names scope)
  | format v spec => do
    let _ ← ev.language.format (spec.getD "") v

/-- The template error that the host code of a call raises, if it raises one. -/
def foreign? (ev : Evaluator) (c : Call) (s : Store) : Option TemplateError :=
  match (c.hosted ev s).outcome with
  | .error (.template t) => some t
  | _ => none

/-- The errors of the host that escape a call. The mark of an exhausted iterator leaves as another
error. -/
inductive Leaks (ev : Evaluator) (s : Store) : Call → HostError → Prop where
  | iterate {source : String} {scope : Bindings} {v : Value} {e : HostError}
      (hv : (ev.evaluate source scope s).outcome = .ok v)
      (he : (ev.language.iter v (ev.evaluate source scope s).store).outcome = .error (.host e))
      (ht : e.kind ≠ .type) (hs : e.kind ≠ .stopIteration) : Leaks ev s (.iterate source scope) e
  | exhausted {source : String} {scope : Bindings} {v : Value} {text : Option String}
      (hv : (ev.evaluate source scope s).outcome = .ok v)
      (he : (ev.language.iter v (ev.evaluate source scope s).store).outcome
        = .error (.host ⟨.stopIteration, text⟩)) :
      Leaks ev s (.iterate source scope) ⟨.runtime, some "generator raised StopIteration"⟩
  | format {v : Value} {spec : Option String} {e : HostError}
      (he : (ev.language.format (spec.getD "") v s).outcome = .error (.host e))
      (hv : e.kind.isValue = false) (ht : e.kind ≠ .type) : Leaks ev s (.format v spec) e

/-- How a call that fails ends. -/
inductive Ends (ev : Evaluator) (s : Store) (c : Call) : Failure → Prop where
  /-- With an error of the evaluator, which has no place yet. -/
  | own {kind : TemplateErrorKind} {message : String}
      (h : kind = .evaluation ∨ kind = .formatSpec) :
      Ends ev s c (.template (.unlocated kind message))
  /-- With a template error that the host code raised. -/
  | foreign {t : TemplateError} (h : c.foreign? ev s = some t) : Ends ev s c (.template t)
  /-- With an error of the host that escapes. -/
  | leaked {e : HostError} (h : c.Leaks ev s e) : Ends ev s c (.host e)

section Ends

variable {ev : Evaluator} {s : Store}

theorem foreign?_eq_some {c : Call} {t : TemplateError}
    (h : (c.hosted ev s).outcome = .error (.template t)) : c.foreign? ev s = some t := by
  rw [foreign?, h]

/-- A failure that is wrapped is an error of the evaluator or the template error that it was. -/
theorem ends_wrapped {c : Call} {use : Use} {source : String} {e : Failure}
    (h : (c.hosted ev s).outcome = .error e) : Ends ev s c (e.wrapped use source) := by
  cases e with
  | template t => exact .foreign (foreign?_eq_some h)
  | host e => exact .own (.inl rfl)

/-- The value of an expression, in a call that goes on with it: what fails is the expression, or
what follows it. -/
theorem failure_of_evaluate {c : Call} {source : String} {scope : Bindings} {β : Type}
    {k : Value → Action β} {l : Value → Action Unit} {f : Failure}
    (hc : c.hosted ev = ev.language.evaluate source (ev.names scope) >>= l)
    (h : ((ev.evaluate source scope >>= k) s).outcome = .error f) :
    (∃ e, (c.hosted ev s).outcome = .error e ∧ f = e.wrapped .evaluate source)
      ∨ ∃ v, (ev.evaluate source scope s).outcome = .ok v
        ∧ (k v (ev.evaluate source scope s).store).outcome = .error f
        ∧ ∀ e, (l v (ev.evaluate source scope s).store).outcome = .error e →
          (c.hosted ev s).outcome = .error e := by
  rcases bind_eq_error h with h | ⟨v, hv, h⟩
  · obtain ⟨e, he, rfl⟩ := mapFailure_eq_error h
    exact .inl ⟨e, by rw [hc]; exact (bind_of_error he).1, rfl⟩
  · obtain ⟨ho, hs⟩ := mapFailure_eq_ok hv
    refine .inr ⟨v, hv, h, fun e he => ?_⟩
    have hs : (ev.evaluate source scope s).store = _ := hs
    rw [hs] at he
    rw [hc, (bind_of_ok ho).1, he]

theorem ends_evaluate {c : Call} {source : String} {scope : Bindings} {β : Type}
    {k : Value → Action β} {l : Value → Action Unit} {f : Failure}
    (hc : c.hosted ev = ev.language.evaluate source (ev.names scope) >>= l)
    (h : ((ev.evaluate source scope >>= k) s).outcome = .error f) :
    Ends ev s c f
      ∨ ∃ v, (ev.evaluate source scope s).outcome = .ok v
        ∧ (k v (ev.evaluate source scope s).store).outcome = .error f
        ∧ ∀ e, (l v (ev.evaluate source scope s).store).outcome = .error e →
          (c.hosted ev s).outcome = .error e := by
  rcases failure_of_evaluate hc h with ⟨e, he, rfl⟩ | hv
  · exact .inl (ends_wrapped he)
  · exact .inr hv

/-- A match that fails runs host code, and that fails. -/
theorem failure_of_match {c : Call} {pattern : String} {v : Value} {scope : Bindings} {f : Failure}
    (hc : c.hosted ev = (Call.matching pattern v scope).hosted ev)
    (h : (ev.match? pattern v scope s).outcome = .error f) :
    ∃ e source, (c.hosted ev s).outcome = .error e ∧ f = e.wrapped .matching source := by
  rw [Evaluator.match?] at h
  split at h
  · cases h
  · next hw =>
    split at h
    · cases h
    · next hn =>
      obtain ⟨e, he, rfl⟩ := mapFailure_eq_error h
      refine ⟨e, _, ?_, rfl⟩
      rw [hc, hosted]
      simp only [if_neg (not_or.mpr ⟨hw, hn⟩)]
      exact (bind_of_error he).1

theorem ends_match {c : Call} {pattern : String} {v : Value} {scope : Bindings} {f : Failure}
    (hc : c.hosted ev = (Call.matching pattern v scope).hosted ev)
    (h : (ev.match? pattern v scope s).outcome = .error f) : Ends ev s c f := by
  obtain ⟨e, _, he, rfl⟩ := failure_of_match hc h
  exact ends_wrapped he

/-- A failure to make an iterator is an error of the evaluator if it is about the type of the value;
any other failure passes. -/
theorem ends_notIterable {source : String} {scope : Bindings} {v : Value} {e : Failure}
    (hv : (ev.evaluate source scope s).outcome = .ok v)
    (he : (ev.language.iter v (ev.evaluate source scope s).store).outcome = .error e)
    (h : ((iterate source scope).hosted ev s).outcome = .error e) :
    Ends ev s (iterate source scope) (e.notIterable source) := by
  rcases e with t | ⟨kind, text⟩
  · exact .foreign (foreign?_eq_some h)
  · by_cases ht : kind = .type
    · rw [ht]
      exact .own (.inl rfl)
    · by_cases hs : kind = .stopIteration
      · subst hs
        exact .leaked (.exhausted hv he)
      · -- Neither of the two exceptions: the failure is handed on.
        rw [Failure.notIterable_of_ne ht hs]
        exact .leaked (.iterate hv he ht hs)

/-- A failure to format is an error of the evaluator if it is about the value or its type; any other
failure passes. -/
theorem ends_format (hl : ev.language.NamesTypes) {v : Value} {spec : Option String} {f : Failure}
    (h : (ev.format v spec s).outcome = .error f) : Ends ev s (format v spec) f := by
  obtain ⟨e, he, h⟩ := orElse_eq_error h
  split at h
  · obtain ⟨type, ht⟩ := hl v (ev.language.format (spec.getD "") v s).store
    rw [(bind_of_ok ht).1] at h
    cases h
    exact .own (.inr rfl)
  · next hk =>
    cases h
    cases f with
    | template t => exact .foreign (foreign?_eq_some (bind_of_error he).1)
    | host e =>
      rw [Failure.isValueOrType, Bool.or_eq_true, beq_iff_eq, not_or, Bool.not_eq_true] at hk
      exact .leaked (.format he hk.1 hk.2)

/-- A call that fails ends with an error of the evaluator, with a template error of its host code,
or with an error of the host that escapes it. -/
theorem ends_of_error (hl : ev.language.NamesTypes) {c : Call} {f : Failure}
    (h : (c.run ev s).outcome = .error f) : Ends ev s c f := by
  cases c with
  | evaluate source scope =>
    obtain ⟨e, he, rfl⟩ := mapFailure_eq_error h
    exact ends_wrapped (bind_of_error he).1
  | test source scope =>
    obtain h | ⟨v, -, h, -⟩ :=
      ends_evaluate (c := test source scope) (l := fun v => do let _ ← ev.language.truth v) rfl h
    · exact h
    · obtain ⟨e, -, rfl⟩ := mapFailure_eq_error h
      exact .own (.inl rfl)
  | iterate source scope =>
    obtain h | ⟨v, hv, h, hhost⟩ :=
      ends_evaluate (c := iterate source scope) (l := fun v => do let _ ← ev.language.iter v) rfl h
    · exact h
    · obtain ⟨e, he, rfl⟩ := mapFailure_eq_error h
      exact ends_notIterable hv he (hhost e (bind_of_error he).1)
  | next source iterator =>
    obtain ⟨e, he, h⟩ := orElse_eq_error h
    split at h
    · cases h
    · cases h
      exact ends_wrapped (bind_of_error he).1
  | matching pattern v scope => exact ends_match rfl h
  | bind pattern v scope =>
    rcases bind_eq_error h with h | ⟨matched, -, h⟩
    · exact ends_match rfl h
    · cases matched with
      | some b => cases h
      | none =>
        obtain ⟨type, ht⟩ := hl v (ev.match? pattern v scope s).store
        rw [(bind_of_ok ht).1] at h
        cases h
        exact .own (.inl rfl)
  | execute source scope =>
    obtain ⟨e, he, rfl⟩ := mapFailure_eq_error h
    exact ends_wrapped he
  | format v spec => exact ends_format hl h

/-- An error that escapes does leave the call. -/
theorem Leaks.run {c : Call} {e : HostError} (h : c.Leaks ev s e) :
    (c.run ev s).outcome = .error (.host e) := by
  cases h with
  | iterate hv he ht hs =>
    refine (bind_of_ok hv).1.trans ((mapFailure_of_error he).1.trans ?_)
    rw [Failure.notIterable_of_ne ht hs]
  | exhausted hv he => exact (bind_of_ok hv).1.trans (mapFailure_of_error he).1
  | @format v spec _ he hv ht =>
    have hk : ¬ (Failure.host e).isValueOrType = true := by
      simp [Failure.isValueOrType, hv, ht]
    show (ev.format v spec s).outcome = .error (.host e)
    rw [Evaluator.format, orElse_of_error he, if_neg hk]
    rfl

end Ends

end Call

end MarkupTemplate
