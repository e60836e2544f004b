import MarkupTemplate.Proofs.Action

/-!
# Scripts

What a rendering does when the calls of its evaluator are left open: it writes texts and makes
calls, each at a place, and goes on with what a call answers.

* `Call`: a call of an evaluator.
* `Script`: texts and calls, each call followed by what its answer leads to.
* `Script.run`: a script as a run, in which every call is guarded by its own place alone.
* `Script.located_run`: a further guard around a script changes nothing.
* `Script.break?`: the call at which a run breaks off.
* `Script.Within`: a property of all calls of a script.
-/
namespace MarkupTemplate

open MarkupTemplate.Action

/-- A failure that has passed a guard passes every other one as it is. -/
theorem Failure.locate_locate (source : List Char) (p q : Nat) (f : Failure) :
    (f.locate source p).locate source q = f.locate source p := by
  rcases f with ⟨kind, message, _ | _⟩ | _
  · by_cases h : (kind = .evaluation ∨ kind = .formatSpec) ∧ source ≠ []
    · rw [Failure.locate, if_pos h]
      rfl
    · rw [Failure.locate, if_neg h, Failure.locate, if_neg h]
  · rfl
  · rfl

theorem Render.located_bind {α β : Type} (r : Rendering) (pos : Nat) (x : Action α)
    (f : α → Action β) :
    located r pos (x >>= f) = located r pos x >>= fun a => located r pos (f a) :=
  mapFailure_bind x f _

/-- A guard does not touch a run that ends well. -/
theorem Render.ends_located {α : Type} {r : Rendering} {pos : Nat} {x : Action α} {s t : Store}
    {a : α} (h : x.Ends s (.ok a) t) : (located r pos x).Ends s (.ok a) t :=
  h.mapFailure

theorem Render.located_eq_ok {α : Type} {r : Rendering} {pos : Nat} {x : Action α} {s : Store}
    {a : α} (h : (located r pos x s).outcome = .ok a) :
    (x s).outcome = .ok a ∧ (located r pos x s).store = (x s).store :=
  mapFailure_eq_ok h

/-- A guard gives its place to an error. -/
theorem Render.ends_located_error {α : Type} {r : Rendering} {pos : Nat} {x : Action α}
    {s t : Store} {e : Failure} (h : x.Ends s (.error e) t) :
    (located r pos x).Ends s (.error (e.locate r.source pos)) t :=
  h.mapFailure_error

/-- A call of an evaluator. -/
inductive Call where
  | evaluate (source : String) (scope : Bindings)
  | test (source : String) (scope : Bindings)
  | iterate (source : String) (scope : Bindings)
  | next (source : String) (iterator : Nat)
  | matching (pattern : String) (v : Value) (scope : Bindings)
  | bind (pattern : String) (v : Value) (scope : Bindings)
  | execute (source : String) (scope : Bindings)
  | format (v : Value) (spec : Option String)

namespace Call

/-- What a call answers. -/
@[reducible] def Answer : Call → Type
  | evaluate .. => Value
  | test .. => Bool
  | iterate .. => Nat
  | next .. => Option Value
  | matching .. => Option Bindings
  | bind .. => Bindings
  | execute .. => Unit
  | format .. => String

/-- The run of a call. -/
def run (ev : Evaluator) : (c : Call) → Action c.Answer
  | evaluate source scope => ev.evaluate source scope
  | test source scope => ev.test source scope
  | iterate source scope => ev.iterate source scope
  | next source iterator => ev.next source iterator
  | matching pattern v scope => ev.match? pattern v scope
  | bind pattern v scope => ev.bind pattern v scope
  | execute source scope => ev.execute source scope
  | format v spec => ev.format v spec

end Call

/-- What a rendering does. It ends with a value or an error of its own, writes a text, or makes a
call at a place. -/
inductive Script (α : Type) : Type where
  | done (a : α)
  | stop (kind : HostErrorKind) (text : String)
  | write (text : String) (next : Script α)
  | call (pos : Nat) (c : Call) (next : c.Answer → Script α)

namespace Script

variable {α β : Type}

/-- Goes on with another script. -/
protected def bind (t : Script α) (f : α → Script β) : Script β :=
  match t with
  | done a => f a
  | stop kind text => stop kind text
  | write text next => write text (next.bind f)
  | call pos c next => call pos c fun a => (next a).bind f

instance : Monad Script where
  pure := done
  bind := Script.bind

/-- Writes a text. -/
def put (text : String) : Script Unit := write text (done ())

/-- Makes a call at a place. -/
def ask (pos : Nat) (c : Call) : Script c.Answer := call pos c done

/-- The run of a script. Every call is guarded by its own place, and by nothing else. -/
def run (r : Rendering) : Script α → Action α
  | done a => pure a
  | stop kind text => Action.raise kind text
  | write text next => do
    Render.write r text
    next.run r
  | call pos c next => do
    let a ← Render.located r pos (c.run r.evaluator)
    (next a).run r

/-! ## Running scripts -/

section Run

variable {r : Rendering}

@[simp] theorem run_pure (a : α) : (pure a : Script α).run r = pure a := rfl

@[simp] theorem run_put (text : String) : (put text).run r = Render.write r text :=
  bind_pure (Render.write r text)

-- The type of the answer is not indexed: in a script it stands reduced.
@[simp] theorem run_ask (pos : Nat) (c : Call) :
    @run (no_index c.Answer) r (ask pos c) = Render.located r pos (c.run r.evaluator) :=
  bind_pure (Render.located r pos (c.run r.evaluator))

@[simp] theorem run_bind (t : Script α) (f : α → Script β) :
    (t >>= f).run r = t.run r >>= fun a => (f a).run r := by
  show (t.bind f).run r = _
  induction t with
  | done a => rfl
  | stop kind text => rfl
  | write text next ih => simp only [Script.bind, run, ih, Action.bind_assoc]
  | call pos c next ih => simp only [Script.bind, run, ih, Action.bind_assoc]

/-- A guard around a script changes nothing: the errors of its calls have their places. -/
theorem located_run (r : Rendering) (pos : Nat) (t : Script α) :
    Render.located r pos (t.run r) = t.run r := by
  induction t with
  | done a => rfl
  | stop kind text => rfl
  | write text next ih =>
    rw [run, Render.located_bind, ih]
    rfl
  | call p c next ih =>
    -- The call stands under two guards; the inner one has located its failure already.
    rw [run, Render.located_bind, Render.located, Render.located, mapFailure_mapFailure]
    simp only [Failure.locate_locate, ih]

end Run

/-! ## Where a run breaks off -/

/-- A call at which a run breaks off: its place, the store that it finds, and its failure. -/
structure Break where
  pos : Nat
  call : Call
  store : Store
  failure : Failure

/-- The call at which the run of a script breaks off, if a call fails. -/
def break? (r : Rendering) : Script α → Store → Option Break
  | done _, _ => none
  | stop _ _, _ => none
  | write text next, s => next.break? r (s.append r.sink text)
  | call pos c next, s =>
    match (c.run r.evaluator s).outcome with
    | .ok a => (next a).break? r (c.run r.evaluator s).store
    | .error f => some ⟨pos, c, s, f⟩

/-- Every call of a script has a property, and so has every error of its own. -/
inductive Within (P : Nat → Call → Prop) (Q : HostErrorKind → String → Prop) : Script α → Prop where
  | done (a : α) : Within P Q (.done a)
  | stop {kind : HostErrorKind} {text : String} (h : Q kind text) : Within P Q (.stop kind text)
  | write {text : String} {next : Script α} (h : Within P Q next) : Within P Q (.write text next)
  | call {pos : Nat} {c : Call} {next : c.Answer → Script α} (hc : P pos c)
      (h : ∀ a, Within P Q (next a)) : Within P Q (.call pos c next)

section Within

variable {P : Nat → Call → Prop} {Q : HostErrorKind → String → Prop} {r : Rendering}

theorem Within.bind {t : Script α} {f : α → Script β} (h : t.Within P Q)
    (hf : ∀ a, (f a).Within P Q) : (t >>= f).Within P Q := by
  show (t.bind f).Within P Q
  induction h with
  | done a => exact hf a
  | stop h => exact .stop h
  | write _ ih => exact .write ih
  | call hc _ ih => exact .call hc ih

theorem within_put (text : String) : (put text).Within P Q := .write (.done ())

theorem within_ask {pos : Nat} {c : Call} (h : P pos c) : (ask pos c).Within P Q :=
  .call h .done

/-- The call at which a run breaks off is one of the script's, and the run ends with its failure,
put at the place of the call. -/
theorem Within.of_break? {t : Script α} (h : t.Within P Q) {s : Store} {b : Break}
    (hb : t.break? r s = some b) :
    P b.pos b.call ∧ (b.call.run r.evaluator b.store).outcome = .error b.failure
      ∧ (t.run r s).outcome = .error (b.failure.locate r.source b.pos) := by
  induction h generalizing s with
  | done a => cases hb
  | stop h => cases hb
  | @write text next _ ih =>
    obtain ⟨hp, hc, ho⟩ := ih hb
    exact ⟨hp, hc, (bind_of_ok (x := Render.write r text) rfl).1.trans ho⟩
  | @call pos c next hp _ ih =>
    rw [break?] at hb
    cases hc : (c.run r.evaluator s).outcome with
    | error f =>
      rw [hc] at hb
      cases hb
      exact ⟨hp, hc, (bind_of_error (mapFailure_of_error hc).1).1⟩
    | ok a =>
      rw [hc] at hb
      obtain ⟨hp', hc', ho⟩ := ih a hb
      obtain ⟨hok, hs⟩ := mapFailure_of_ok (f := .locate r.source pos) hc
      rw [← hs] at ho
      exact ⟨hp', hc', (bind_of_ok hok).1.trans ho⟩

/-- A run that fails breaks off at a call or stops by itself. -/
theorem Within.of_error {t : Script α} (h : t.Within P Q) {s : Store} {f : Failure}
    (hf : (t.run r s).outcome = .error f) :
    (∃ b, t.break? r s = some b) ∨ ∃ kind text, Q kind text ∧ f = .raised kind text := by
  induction h generalizing s with
  | done a => cases hf
  | stop h => cases hf; exact .inr ⟨_, _, h, rfl⟩
  | @write text next _ ih =>
    rw [run, (bind_of_ok (x := Render.write r text) rfl).1] at hf
    exact ih hf
  | @call pos c next hp _ ih =>
    cases hc : (c.run r.evaluator s).outcome with
    | error e => exact .inl ⟨⟨pos, c, s, e⟩, by rw [break?, hc]⟩
    | ok a =>
      obtain ⟨hok, hs⟩ := mapFailure_of_ok (f := .locate r.source pos) hc
      rw [run, Render.located, (bind_of_ok hok).1, hs] at hf
      rw [break?, hc]
      exact ih a hf

end Within

end Script

end MarkupTemplate
