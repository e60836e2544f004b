import MarkupTemplate.Proofs.RenderError

/-!
# Template errors of host code

Host code may raise template errors itself, for instance when it renders another template. One that
has a position leaves the rendering as it is, from whatever call it is raised in, with two
exceptions: an error raised while the truth of a condition is asked, and a format error raised while
a value is laid out, end in an error of the evaluator that only quotes them.

* `Script.Reaches`: the calls that a run comes to.
* `Call.Masks`: the calls that replace a template error of their host code.
* `Call.run_of_foreign?`: how a call ends whose host code raises a template error.
* `error_of_foreign?`: how a rendering ends that comes to such a call.
* `not_passed_condition`: the error of a value that is asked for its truth is replaced.
-/
namespace MarkupTemplate

open MarkupTemplate.Action

namespace Script

variable {α : Type} {r : Rendering}

/-- The run of a script comes to a call, made at a place in some store. -/
inductive Reaches (r : Rendering) : Script α → Store → Nat → Call → Store → Prop where
  | write {text : String} {next : Script α} {s s' : Store} {pos : Nat} {c : Call}
      (h : Reaches r next (s.append r.sink text) pos c s') : Reaches r (.write text next) s pos c s'
  | here {pos : Nat} {c : Call} {next : c.Answer → Script α} {s : Store} :
      Reaches r (.call pos c next) s pos c s
  | later {p pos : Nat} {c d : Call} {next : c.Answer → Script α} {s s' : Store} {a : c.Answer}
      (ha : (c.run r.evaluator s).outcome = .ok a)
      (h : Reaches r (next a) (c.run r.evaluator s).store pos d s') :
      Reaches r (.call p c next) s pos d s'

/-- A run breaks off at the call that fails among those it comes to. -/
theorem Reaches.break? {t : Script α} {s s' : Store} {pos : Nat} {c : Call} {f : Failure}
    (h : t.Reaches r s pos c s') (hf : (c.run r.evaluator s').outcome = .error f) :
    t.break? r s = some ⟨pos, c, s', f⟩ := by
  induction h with
  | write _ ih => exact ih hf
  | here => rw [Script.break?, hf]
  | later ha _ ih =>
    rw [Script.break?, ha]
    exact ih hf

/-- A run comes to the call that it breaks off at. -/
theorem reaches_of_break? {t : Script α} {s : Store} {b : Break} (h : t.break? r s = some b) :
    t.Reaches r s b.pos b.call b.store := by
  induction t generalizing s with
  | done a => cases h
  | stop kind text => cases h
  | write text next ih => exact .write (ih h)
  | call pos c next ih =>
    rw [break?] at h
    cases hc : (c.run r.evaluator s).outcome with
    | error f =>
      rw [hc] at h
      cases h
      exact .here
    | ok a =>
      rw [hc] at h
      exact .later hc (ih a h)

end Script

namespace Call

/-- The calls that replace a template error which their host code raises, and what they end with. -/
inductive Masks (ev : Evaluator) (s : Store) (t : TemplateError) : Call → Failure → Prop where
  /-- The value of a condition raises it when it is asked for its truth. -/
  | truth {source : String} {scope : Bindings} {v : Value}
      (hv : (ev.evaluate source scope s).outcome = .ok v)
      (ht : (ev.language.truth v (ev.evaluate source scope s).store).outcome
        = .error (.template t)) :
      Masks ev s t (.test source scope) ((Failure.template t).during .test source)
  /-- A value raises a format error when it is laid out. -/
  | format {v : Value} {spec : Option String} {type : String}
      (hf : (ev.language.format (spec.getD "") v s).outcome = .error (.template t))
      (hk : t.kind = .formatSpec)
      (htype : (ev.language.typeName v (ev.language.format (spec.getD "") v s).store).outcome
        = .ok type) :
      Masks ev s t (.format v spec) ((Failure.template t).badSpec type spec)

section Foreign

variable {ev : Evaluator} {s : Store} {t : TemplateError}

/-- A call that replaces an error ends with the replacement. -/
theorem Masks.run {c : Call} {f : Failure} (h : c.Masks ev s t f) :
    (c.run ev s).outcome = .error f := by
  cases h with
  | truth hv ht => exact (bind_of_ok hv).1.trans (mapFailure_of_error ht).1
  | @format v spec type hf hk htype =>
    have hvalue : (Failure.template t).isValueOrType = true := by
      rw [Failure.isValueOrType, hk]
      rfl
    show (ev.format v spec s).outcome = _
    rw [Evaluator.format, orElse_of_error hf, if_pos hvalue]
    exact (bind_of_ok htype).1

theorem hosted_of_foreign? {c : Call} (h : c.foreign? ev s = some t) :
    (c.hosted ev s).outcome = .error (.template t) := by
  rw [foreign?] at h
  split at h
  · next t' ht =>
    cases h
    exact ht
  · cases h

/-- What fails in a run whose value is thrown away. -/
theorem error_of_discard {α : Type} {x : Action α} {e : Failure}
    (h : ((x >>= fun _ => pure ()) s).outcome = .error e) : (x s).outcome = .error e := by
  rcases bind_eq_error h with h | ⟨_, -, h⟩
  · exact h
  · cases h

/-- A template error of an expression passes the evaluation; otherwise the expression has a value,
and what follows it has raised the error. -/
theorem error_of_evaluate {α : Type} {source : String} {scope : Bindings} {k : Value → Action α}
    (h : ((ev.language.evaluate source (ev.names scope) >>= k) s).outcome = .error (.template t)) :
    (ev.evaluate source scope s).outcome = .error (.template t)
      ∨ ∃ v, (ev.evaluate source scope s).outcome = .ok v
        ∧ (k v (ev.evaluate source scope s).store).outcome = .error (.template t) := by
  rcases bind_eq_error h with h | ⟨v, hv, h⟩
  · exact .inl (mapFailure_of_error h).1
  · obtain ⟨ho, hs⟩ := mapFailure_of_ok (f := .wrapped .evaluate source) hv
    refine .inr ⟨v, ho, ?_⟩
    rw [← hs] at h
    exact h

theorem match?_of_hosted {pattern : String} {v : Value} {scope : Bindings}
    (h : ((matching pattern v scope).hosted ev s).outcome = .error (.template t)) :
    (ev.match? pattern v scope s).outcome = .error (.template t) := by
  by_cases hp : Evaluator.trimmed pattern = "_" ∨ Host.isCapture (Evaluator.trimmed pattern)
  · rw [hosted] at h
    simp only [if_pos hp] at h
    cases h
  · obtain ⟨hw, hn⟩ := not_or.mp hp
    rw [hosted] at h
    simp only [if_neg hp] at h
    simp only [Evaluator.match?, if_neg hw, if_neg hn]
    exact (mapFailure_of_error (error_of_discard h)).1

/-- A call whose host code raises a template error ends with it, unless it replaces it. -/
theorem run_of_foreign? (hl : ev.language.NamesTypes) {c : Call} (h : c.foreign? ev s = some t) :
    (c.run ev s).outcome = .error (.template t) ∨ ∃ f, c.Masks ev s t f := by
  have h := hosted_of_foreign? h
  cases c with
  | evaluate source scope => exact .inl (mapFailure_of_error (error_of_discard h)).1
  | test source scope =>
    rcases error_of_evaluate h with h | ⟨v, hv, h⟩
    · exact .inl (bind_of_error h).1
    · exact .inr ⟨_, .truth hv (error_of_discard h)⟩
  | iterate source scope =>
    rcases error_of_evaluate h with h | ⟨v, hv, h⟩
    · exact .inl (bind_of_error h).1
    · exact .inl ((bind_of_ok hv).1.trans (mapFailure_of_error (error_of_discard h)).1)
  | next source iterator => exact .inl (orElse_of_error (error_of_discard h))
  | matching pattern v scope => exact .inl (match?_of_hosted h)
  | bind pattern v scope => exact .inl (bind_of_error (match?_of_hosted h)).1
  | execute source scope => exact .inl (mapFailure_of_error h).1
  | format v spec =>
    have h := error_of_discard h
    by_cases hk : t.kind = .formatSpec
    · obtain ⟨type, htype⟩ := hl v (ev.language.format (spec.getD "") v s).store
      exact .inr ⟨_, .format h hk htype⟩
    · have hvalue : ¬ (Failure.template t).isValueOrType = true := by
        simpa [Failure.isValueOrType] using hk
      refine .inl ?_
      show (ev.format v spec s).outcome = _
      rw [Evaluator.format, orElse_of_error h, if_neg hvalue]
      rfl

end Foreign

end Call

namespace Render

/-- The rendering of a document comes to a call, made at a place in some store. -/
def Reaches (ev : Evaluator) (sink : Nat) (doc : Document) (scope : Bindings) (s : Store) :
    Nat → Call → Store → Prop :=
  (Script.document sink ev.language.limit doc scope).Reaches ⟨ev, sink, doc.source⟩ s

/-- A rendering that comes to a call which fails ends with the failure of the call, put at the place
of the call. -/
theorem error_of_reaches {text : List Char} {doc : Document}
    (hdoc : Document.ofText? text = .ok doc) {ev : Evaluator} {sink : Nat} {scope : Bindings}
    {s s' : Store} {pos : Nat} {c : Call} {f : Failure} (hr : Reaches ev sink doc scope s pos c s')
    (hf : (c.run ev s').outcome = .error f) :
    (document ev sink doc scope s).outcome = .error (f.locate text pos) := by
  have hw := Script.within_document hdoc sink ev.language.limit scope
  obtain ⟨-, -, hsource⟩ := ofText?_ok_iff_readNodes.mp hdoc
  obtain ⟨-, -, hrun⟩ := hw.of_break? (Script.Reaches.break? hr hf)
  rw [← Script.run_document, hrun, hsource]

end Render

/-- A rendering that comes to a call whose host code raises a template error with a position ends
with that very error, unless the call replaces it; then it ends with the replacement, put at the
place of the call. -/
theorem error_of_foreign? {text : List Char} {doc : Document}
    (hdoc : Document.ofText? text = .ok doc) {ev : Evaluator} (hnames : ev.language.NamesTypes)
    {sink : Nat} {scope : Bindings} {s s' : Store} {pos : Nat} {c : Call} {t : TemplateError}
    (hr : Render.Reaches ev sink doc scope s pos c s') (ht : c.foreign? ev s' = some t)
    (hpos : t.pos ≠ none) :
    ((¬ ∃ f, c.Masks ev s' t f)
        → (Render.document ev sink doc scope s).outcome = .error (.template t))
      ∧ ∀ f, c.Masks ev s' t f
        → (Render.document ev sink doc scope s).outcome = .error (f.locate text pos) := by
  refine ⟨fun hmask => ?_, fun f hf => Render.error_of_reaches hdoc hr hf.run⟩
  have hcall := (Call.run_of_foreign? hnames ht).resolve_right hmask
  rw [Render.error_of_reaches hdoc hr hcall]
  -- The error has a position, so the guard of the call leaves it alone.
  obtain ⟨kind, message, _ | p⟩ := t
  · exact absurd rfl hpos
  · rfl

/-- True of a call that lays out a value. -/
def Call.isFormat : Call → Bool
  | format .. => true
  | _ => false

/-- The value of a loop variable raises a syntax error when it is laid out; the error leaves the
rendering as it is. -/
theorem error_of_foreign?_loop :
    ∃ doc pos v spec s', Document.ofText? "for x in v \x7b\x7bx\x7d\x7d".toList = .ok doc
      ∧ Render.Reaches ⟨Host.language 6, []⟩ 0 doc
          [("v", .tuple [.hooked 1 "Hooked" .format
            (.template ⟨.malformed, "boom at 9", some 9⟩)])] Store.empty pos (.format v spec) s'
      ∧ (Call.format v spec).foreign? ⟨Host.language 6, []⟩ s'
        = some ⟨.malformed, "boom at 9", some 9⟩
      ∧ (Render.document ⟨Host.language 6, []⟩ 0 doc
          [("v", .tuple [.hooked 1 "Hooked" .format
            (.template ⟨.malformed, "boom at 9", some 9⟩)])] Store.empty).outcome
        = .error (.template ⟨.malformed, "boom at 9", some 9⟩) := by
  have hdoc : Document.ofText? "for x in v \x7b\x7bx\x7d\x7d".toList
      = .ok ⟨[.loop "x" "v" [.expression ⟨"x", none, .text, 12⟩] 0],
        "for x in v \x7b\x7bx\x7d\x7d".toList⟩ := by cbv
  have hb : (Render.break? ⟨Host.language 6, []⟩ 0
      ⟨[.loop "x" "v" [.expression ⟨"x", none, .text, 12⟩] 0],
        "for x in v \x7b\x7bx\x7d\x7d".toList⟩
      [("v", .tuple [.hooked 1 "Hooked" .format
        (.template ⟨.malformed, "boom at 9", some 9⟩)])] Store.empty).any
      (fun b => b.call.isFormat
        && b.call.foreign? ⟨Host.language 6, []⟩ b.store
          == some ⟨.malformed, "boom at 9", some 9⟩) = true := by cbv
  obtain ⟨⟨pos, c, s', f⟩, hb, h⟩ := (Option.any_eq_true _ _).mp hb
  cases c with
  | format v spec =>
    have hr := Script.reaches_of_break? hb
    have ht : (Call.format v spec).foreign? ⟨Host.language 6, []⟩ s'
        = some ⟨.malformed, "boom at 9", some 9⟩ := by simpa [Call.isFormat] using h
    have hmask : ¬ ∃ f, (Call.format v spec).Masks ⟨Host.language 6, []⟩ s'
        ⟨.malformed, "boom at 9", some 9⟩ f := by
      rintro ⟨_, hf⟩
      cases hf with
      | format _ hk _ => cases hk
    exact ⟨_, pos, v, spec, s', hdoc, hr, ht,
      (error_of_foreign? hdoc (Host.namesTypes_language 6) hr ht (by decide)).1 hmask⟩
  | _ => cases h

/-- A syntax error that the value of a condition raises, and a format error that a value raises when
it is laid out, are both replaced, though they have positions. -/
theorem not_passed_condition :
    (∃ doc, Document.ofText? "if v \x7b\x7d".toList = .ok doc
      ∧ (Render.document ⟨Host.language 6, []⟩ 0 doc [("v", .hooked 1 "Hooked" .truth
          (.template ⟨.malformed, "boom at 9", some 9⟩))] Store.empty).outcome
        = .error (.template ⟨.evaluation, "Failed to test condition 'v': TemplateSyntaxError: "
            ++ "boom at 9 at 3 (line 1, column 4)", some 3⟩))
      ∧ ∃ doc, Document.ofText? "\x7bv\x7d".toList = .ok doc
        ∧ (Render.document ⟨Host.language 6, []⟩ 0 doc [("v", .hooked 1 "Hooked" .format
            (.template ⟨.formatSpec, "boom at 9", some 9⟩))] Store.empty).outcome
          = .error (.template ⟨.formatSpec, "Cannot format Hooked with spec None: "
              ++ "boom at 9 at 0 (line 1, column 1)", some 0⟩) := by
  have hif : Document.ofText? "if v \x7b\x7d".toList
      = .ok ⟨[.choice [⟨"v", [], none, 3⟩] none], "if v \x7b\x7d".toList⟩ := by cbv
  have hvalue : Document.ofText? "\x7bv\x7d".toList
      = .ok ⟨[.expression ⟨"v", none, .text, 0⟩], "\x7bv\x7d".toList⟩ := by cbv
  exact ⟨⟨_, hif, by cbv⟩, ⟨_, hvalue, by cbv⟩⟩

end MarkupTemplate
