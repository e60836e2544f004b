import MarkupTemplate.Proofs.RenderError
import MarkupTemplate.Proofs.SyntaxError
import MarkupTemplate.Proofs.Text.OneLine

/-!
# Messages on one line

What a message takes from a template is quoted, or has its blanks squeezed and is quoted then, so
line feeds in names, literals and patterns are written as escapes. The one exception is the name of
a start tag without an end, which a message takes as it is.

What the host says is taken as it is, too: the text of its error and the name of a type. If these
are on one line, so is the message of a call that fails.

* `FaultCause.oneLine_message`: the wording of a fault.
* `Document.oneLine_of_ofText?`: the message about a malformed text.
* `Call.Plain`: what the host says about a call is on one line.
* `Call.oneLine_of_error`: the message of a call that fails.
* `Render.oneLine_of_error`: the message of a rendering that fails.
-/
namespace MarkupTemplate

open MarkupTemplate.Action MarkupTemplate.Text

/-! ## Malformed texts -/

theorem Token.oneLine_describe (t : Token) : OneLine t.describe := by
  unfold describe
  split
  · decide
  · split
    · simp only [oneLine_append, oneLine_quote, true_and]
      decide
    · exact oneLine_quote _

/-- A cause is told on one line, but for the name of a tag. -/
theorem FaultCause.oneLine_message {cause : FaultCause} (h : cause.Plain)
    (hname : ∀ name, cause = unterminatedTag name → OneLine name) : OneLine cause.message := by
  delta message
  cases cause with
  | scan | custom => exact h.elim
  | unterminatedTag name =>
    simp only [oneLine_append, hname name rfl, and_true]
    decide
  | expectedKind kind found =>
    have h : OneLine kind := h
    simp only [oneLine_append, h, found.oneLine_describe, and_true]
    decide
  | expectedBefore | expectedPayloadPart | missingHead =>
    have h : OneLine _ := h
    simp only [oneLine_append, h, and_true]
    decide
  | expectedValue _ found | expectedName found | expectedCloseTagEnd found =>
    simp only [oneLine_append, oneLine_quote, found.oneLine_describe, and_true]
    decide
  | badAttributeValue | missingCondition | bareWord | unexpectedToken =>
    simp only [oneLine_append, oneLine_quote, and_true]
    decide
  | _ => decide

/-- An escape that cannot be read is marked by a letter. -/
theorem Literal.oneLine_of_readEscape {d : Char} {rest : List Char} {cause : ScanCause}
    (h : readEscape d rest = .error cause) : OneLine cause.message := by
  have hmark : ∀ mark : Char, mark ≠ '\n' → OneLine (ScanCause.invalidEscape mark).message := by
    intro mark hmark
    have hone : OneLine mark.toString := by simpa [OneLine, eq_comm] using hmark
    have hinvalid : OneLine ("Invalid \\" ++ mark.toString) :=
      (oneLine_append _ _).mpr ⟨by decide, hone⟩
    exact (oneLine_append _ " escape").mpr ⟨hinvalid, by decide⟩
  have hd : d ≠ '\n' := by
    rintro rfl
    cases h
  rw [readEscape_eq_iff] at h
  cases h with
  | noCharacter =>
    split
    · exact hmark d hd
    · decide
  | noCode => exact hmark d hd
  | unclosed => exact hmark 'N' (by decide)
  | unknown =>
    exact (oneLine_append "Unknown character name " _).mpr ⟨by decide, oneLine_quote _⟩

theorem Scan.Blames.oneLine {text : List Char} {e : ScanFault} (h : Blames text e) :
    OneLine e.cause.message := by
  cases h with
  | closer =>
    exact (oneLine_append "Unexpected " _).mpr ⟨by decide, oneLine_quote _⟩
  | group =>
    exact (oneLine_append "Unterminated group " _).mpr ⟨by decide, oneLine_quote _⟩
  | string => exact (by decide : OneLine "Unterminated string")
  | escape _ _ _ _ _ he => exact Literal.oneLine_of_readEscape he

/-- The message about a malformed text is on one line, unless it names a start tag without an end
whose name is not. -/
theorem Document.oneLine_of_ofText? {text : List Char} {e : TemplateError}
    (h : ofText? text = .error (.template e)) : OneLine e.message
      ∨ ∃ name pos, e = Fault.toError text ⟨.unterminatedTag name, pos⟩ ∧ ¬ OneLine name := by
  have hmessage : ∀ f : Fault, OneLine f.cause.message → OneLine (f.toError text).message :=
    fun f hf => (oneLine_append _ _).mpr ⟨hf, Location.oneLine_describe _ _⟩
  rcases fault_of_error h with ⟨⟨cause, pos⟩, he, hf⟩ | ⟨as, ⟨cause, pos⟩, -, hknown, hf⟩
  · have hc : cause ≠ .codeOverflow := by
      rintro rfl
      cases hf
    rw [Fault.toFailure_ofScan hc] at hf
    cases hf
    exact .inl (hmessage ⟨.scan cause, pos⟩ (Scan.blames_of_error he).oneLine)
  · cases hf
    by_cases hname : ∀ name, cause = .unterminatedTag name → OneLine name
    · exact .inl (hmessage ⟨cause, pos⟩ (FaultCause.oneLine_message hknown.cause hname))
    · obtain ⟨name, rfl, hbreaks⟩ : ∃ name, cause = .unterminatedTag name ∧ ¬ OneLine name := by
        simpa using hname
      exact .inr ⟨name, pos, rfl, hbreaks⟩

/-! ## Failures of calls -/

namespace Failure

variable {f : Failure}

theorem oneLine_summary (h : OneLine f.text) : OneLine f.summary := by
  delta summary
  rcases f with ⟨kind, message, pos⟩ | ⟨kind, _ | text⟩
  · have h : OneLine message := h
    have hkind : OneLine kind.name := by cases kind <;> decide
    simp only [oneLine_append, hkind, h, true_and, and_true]
    decide
  · exact (by cases kind <;> decide : OneLine kind.className)
  · have h : OneLine text := h
    have hkind : OneLine kind.className := by cases kind <;> decide
    simp only [oneLine_append, hkind, h, true_and, and_true]
    decide

theorem oneLine_during (use : Use) (source : String) (h : OneLine f.text) :
    OneLine (f.during use source).text := by
  have hwords : OneLine use.words := by cases use <;> decide
  simp only [during, text, TemplateError.unlocated, oneLine_append, hwords, oneLine_ofList,
    not_mem_quoteChars, oneLine_summary h, not_false_eq_true, and_true]
  decide

theorem oneLine_wrapped (use : Use) (source : String) (h : OneLine f.text) :
    OneLine (f.wrapped use source).text := by
  cases f with
  | template e => exact h
  | host e => exact oneLine_during use source h

theorem oneLine_notIterable (source : String) (h : OneLine f.text) :
    OneLine (f.notIterable source).text := by
  unfold notIterable
  split
  · exact oneLine_during .iterate source h
  · unfold leavingGenerator
    split
    · exact (by decide : OneLine "generator raised StopIteration")
    · exact h

theorem oneLine_badSpec {type : String} (spec : Option String) (htype : OneLine type)
    (h : OneLine f.text) : OneLine (f.badSpec type spec).text := by
  have hspec : OneLine ((spec.map quote).getD "None") := by
    cases spec with
    | none => decide
    | some spec => exact oneLine_quote spec
  simp only [badSpec, TemplateError.unlocated, oneLine_append, htype, hspec, h, and_true,
    show ∀ e, (template e).text = e.message from fun _ => rfl]
  decide

/-- The words about a place break no line. -/
theorem oneLine_locate (source : List Char) (pos : Nat) (h : OneLine f.text) :
    OneLine (f.locate source pos).text := by
  unfold locate
  split
  · split
    · exact (oneLine_append _ _).mpr ⟨h, Location.oneLine_describe _ _⟩
    · exact h
  · exact h

end Failure

namespace Call

/-- The name of the type that the error of a call mentions, if it mentions one. -/
def typeName? (ev : Evaluator) (s : Store) : Call → Option String
  | bind pattern v scope =>
    (ev.language.typeName v (ev.match? pattern v scope s).store).outcome.toOption
  | format v spec =>
    (ev.language.typeName v (ev.language.format (spec.getD "") v s).store).outcome.toOption
  | _ => none

/-- What the host says about a call is on one line: the text of its failure and the name of the type
that is mentioned with it. -/
structure Plain (ev : Evaluator) (s : Store) (c : Call) : Prop where
  failure : ∀ f, (c.hosted ev s).outcome = .error f → OneLine f.text
  type : ∀ name ∈ c.typeName? ev s, OneLine name

section Plain

variable {ev : Evaluator} {s : Store} {c : Call} {f : Failure}

/-- The message of a call that fails is on one line if what the host says about it is. -/
theorem oneLine_of_error (hl : ev.language.NamesTypes) (hp : c.Plain ev s)
    (h : (c.run ev s).outcome = .error f) : OneLine f.text := by
  obtain ⟨hfailure, htype⟩ := hp
  cases c with
  | evaluate source scope =>
    obtain ⟨e, he, rfl⟩ := mapFailure_eq_error h
    exact Failure.oneLine_wrapped _ _ (hfailure e (bind_of_error he).1)
  | test source scope =>
    obtain ⟨e, he, rfl⟩ | ⟨v, -, h, hhost⟩ := failure_of_evaluate (c := test source scope)
      (l := fun v => do let _ ← ev.language.truth v) rfl h
    · exact Failure.oneLine_wrapped _ _ (hfailure e he)
    · obtain ⟨e, he, rfl⟩ := mapFailure_eq_error h
      exact Failure.oneLine_during _ _ (hfailure e (hhost e (bind_of_error he).1))
  | iterate source scope =>
    obtain ⟨e, he, rfl⟩ | ⟨v, -, h, hhost⟩ := failure_of_evaluate (c := iterate source scope)
      (l := fun v => do let _ ← ev.language.iter v) rfl h
    · exact Failure.oneLine_wrapped _ _ (hfailure e he)
    · obtain ⟨e, he, rfl⟩ := mapFailure_eq_error h
      exact Failure.oneLine_notIterable _ (hfailure e (hhost e (bind_of_error he).1))
  | next source iterator =>
    obtain ⟨e, he, h⟩ := orElse_eq_error h
    split at h
    · cases h
    · cases h
      exact Failure.oneLine_wrapped _ _ (hfailure _ (bind_of_error he).1)
  | matching pattern v scope =>
    obtain ⟨e, _, he, rfl⟩ := failure_of_match rfl h
    exact Failure.oneLine_wrapped _ _ (hfailure e he)
  | bind pattern v scope =>
    rcases bind_eq_error h with h | ⟨matched, -, h⟩
    · obtain ⟨e, _, he, rfl⟩ := failure_of_match (c := bind pattern v scope) rfl h
      exact Failure.oneLine_wrapped _ _ (hfailure e he)
    · cases matched with
      | some b => cases h
      | none =>
        obtain ⟨type, ht⟩ := hl v (ev.match? pattern v scope s).store
        rw [(bind_of_ok ht).1] at h
        cases h
        have htype : OneLine type := htype type (congrArg Except.toOption ht)
        simp only [Failure.text, TemplateError.unlocated, oneLine_append, oneLine_quote, htype,
          and_true]
        decide
  | execute source scope =>
    obtain ⟨e, he, rfl⟩ := mapFailure_eq_error h
    exact Failure.oneLine_wrapped _ _ (hfailure e he)
  | format v spec =>
    have h : (ev.format v spec s).outcome = .error f := h
    obtain ⟨e, he, h⟩ := orElse_eq_error h
    have hone := hfailure e (bind_of_error he).1
    split at h
    · obtain ⟨type, ht⟩ := hl v (ev.language.format (spec.getD "") v s).store
      rw [(bind_of_ok ht).1] at h
      cases h
      exact Failure.oneLine_badSpec spec (htype type (congrArg Except.toOption ht)) hone
    · cases h
      exact hone

end Plain

end Call

/-- The message of a rendering that fails is on one line if what the host says is where the
rendering breaks off. -/
theorem Render.oneLine_of_error {text : List Char} {doc : Document}
    (hdoc : Document.ofText? text = .ok doc) {ev : Evaluator} (hl : ev.language.NamesTypes)
    {sink : Nat} {scope : Bindings} {s : Store}
    (hp : ∀ b ∈ break? ev sink doc scope s, b.call.Plain ev b.store) {f : Failure}
    (h : (document ev sink doc scope s).outcome = .error f) : OneLine f.text := by
  obtain ⟨b, hb, -, hcall, rfl⟩ | rfl := error_cases hdoc h
  · exact Failure.oneLine_locate _ _ (Call.oneLine_of_error hl (hp b hb) hcall)
  · exact (by decide : OneLine "maximum recursion depth exceeded")

end MarkupTemplate
