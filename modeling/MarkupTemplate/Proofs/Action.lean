import MarkupTemplate.Render

/-!
# What runs write

* `Action.Emits`: a run succeeds and puts a text behind the output of a sink, whatever the store is.
* `Action.Shows`: whenever a run succeeds, the characters of a kind that it puts behind the output
  of a sink are always the same.
* `Action.Answers`: whenever a run succeeds, its value has a property.
* `Action.Ends`: in a store, a run has an outcome and leaves another store.
* `Action.Still`: in a store, a run succeeds and leaves the store as it is.
* `Action.sealed`: a run that may not write to a sink.
* `Action.Refines`: whenever a run succeeds, another one does too, with the same value and store.
-/
namespace MarkupTemplate

theorem Store.output_append_self (s : Store) (sink : Nat) (text : String) :
    (s.append sink text).output sink = s.output sink ++ text := by
  rw [output, chunks_append_self, List.reverse_cons, String.join_append, output]
  simp

namespace Action

variable {α β : Type} {sink : Nat} {a : α} {b : β} {t u : String}

/-! ## Runs that succeed -/

/-- The run succeeds with a value and puts a text behind the output of a sink. -/
def Emits (sink : Nat) (x : Action α) (a : α) (t : String) : Prop :=
  ∀ s, (x s).outcome = .ok a ∧ (x s).store.output sink = s.output sink ++ t

theorem emits_pure : Emits sink (pure a) a "" := by
  intro s
  rw [pure_def]
  simp

theorem emits_write : Emits sink (write sink t) () t := by
  intro s
  exact ⟨rfl, s.output_append_self sink t⟩

theorem Emits.bind {x : Action α} {f : α → Action β} (hx : Emits sink x a t)
    (hf : Emits sink (f a) b u) : Emits sink (x >>= f) b (t ++ u) := by
  intro s
  obtain ⟨ho, hs⟩ := hx s
  obtain ⟨ho', hs'⟩ := bind_of_ok (f := f) ho
  obtain ⟨hfo, hfs⟩ := hf (x s).store
  rw [ho', hs', hfo, hfs, hs, String.append_assoc]
  exact ⟨rfl, rfl⟩

/-- A run and then a value that writes nothing. -/
theorem Emits.then_pure {x : Action α} (hx : Emits sink x a t) :
    Emits sink (x >>= fun _ => pure b) b t := by
  have h := hx.bind (f := fun _ => pure b) (emits_pure (a := b))
  rwa [String.append_empty] at h

/-- What a run of two steps that succeeds consists of. -/
theorem bind_eq_ok {x : Action α} {f : α → Action β} {s : Store}
    (h : ((x >>= f) s).outcome = .ok b) : ∃ a, (x s).outcome = .ok a
      ∧ (f a (x s).store).outcome = .ok b ∧ ((x >>= f) s).store = (f a (x s).store).store := by
  cases hx : (x s).outcome with
  | error e =>
    rw [(bind_of_error hx).1] at h
    cases h
  | ok a =>
    obtain ⟨ho, hs⟩ := bind_of_ok (f := f) hx
    exact ⟨a, rfl, ho.symm.trans h, hs⟩

/-- Where a run of two steps that fails has failed. -/
theorem bind_eq_error {x : Action α} {f : α → Action β} {s : Store} {e : Failure}
    (h : ((x >>= f) s).outcome = .error e) : (x s).outcome = .error e
      ∨ ∃ a, (x s).outcome = .ok a ∧ (f a (x s).store).outcome = .error e := by
  cases hx : (x s).outcome with
  | error e' =>
    rw [(bind_of_error hx).1] at h
    cases h
    exact .inl rfl
  | ok a => exact .inr ⟨a, rfl, (bind_of_ok hx).1.symm.trans h⟩

/-- A run that goes on after a failure only to fail succeeds only by itself. -/
theorem orElse_eq_ok {x : Action α} {f : Failure → Action α} {s : Store}
    (hf : ∀ e s' a, (f e s').outcome ≠ .ok a) (h : (x.orElse f s).outcome = .ok a) :
    (x s).outcome = .ok a ∧ (x.orElse f s).store = (x s).store := by
  unfold orElse at h ⊢
  cases hx : x s with
  | mk o t g =>
    rw [hx] at h
    cases o with
    | ok b => exact ⟨h, rfl⟩
    | error e => exact absurd h (hf e t a)

theorem orElse_of_ok {x : Action α} {f : Failure → Action α} {s : Store}
    (h : (x s).outcome = .ok a) :
    (x.orElse f s).outcome = .ok a ∧ (x.orElse f s).store = (x s).store := by
  unfold orElse
  cases hx : x s with
  | mk o t g =>
    rw [hx] at h
    cases o with
    | ok b => exact ⟨h, rfl⟩
    | error e => cases h

theorem mapFailure_eq_ok {x : Action α} {f : Failure → Failure} {s : Store}
    (h : (x.mapFailure f s).outcome = .ok a) :
    (x s).outcome = .ok a ∧ (x.mapFailure f s).store = (x s).store :=
  orElse_eq_ok (fun _ _ _ h => nomatch h) h

theorem mapFailure_of_ok {x : Action α} {f : Failure → Failure} {s : Store}
    (h : (x s).outcome = .ok a) :
    (x.mapFailure f s).outcome = .ok a ∧ (x.mapFailure f s).store = (x s).store :=
  orElse_of_ok h

theorem mapFailure_of_error {x : Action α} {f : Failure → Failure} {s : Store} {e : Failure}
    (h : (x s).outcome = .error e) :
    (x.mapFailure f s).outcome = .error (f e) ∧ (x.mapFailure f s).store = (x s).store := by
  unfold mapFailure orElse
  cases hx : x s with
  | mk o t g =>
    rw [hx] at h
    cases h
    exact ⟨rfl, rfl⟩

theorem orElse_of_error {x : Action α} {f : Failure → Action α} {s : Store} {e : Failure}
    (h : (x s).outcome = .error e) : (x.orElse f s).outcome = (f e (x s).store).outcome := by
  unfold orElse
  cases hx : x s with
  | mk o t g =>
    rw [hx] at h
    cases h
    rfl

theorem orElse_eq_error {x : Action α} {f : Failure → Action α} {s : Store} {e : Failure}
    (h : (x.orElse f s).outcome = .error e) :
    ∃ e', (x s).outcome = .error e' ∧ (f e' (x s).store).outcome = .error e := by
  unfold orElse at h
  cases hx : x s with
  | mk o t g =>
    rw [hx] at h
    cases o with
    | ok b => cases h
    | error e' => exact ⟨e', rfl, h⟩

theorem mapFailure_eq_error {x : Action α} {f : Failure → Failure} {s : Store} {e : Failure}
    (h : (x.mapFailure f s).outcome = .error e) : ∃ e', (x s).outcome = .error e' ∧ e = f e' := by
  obtain ⟨e', he, h⟩ := orElse_eq_error h
  exact ⟨e', he, (Except.error.inj h).symm⟩

theorem mapFailure_pure {f : Failure → Failure} : (pure a : Action α).mapFailure f = pure a := rfl

/-- The failures of two steps are replaced step by step. -/
theorem mapFailure_bind (x : Action α) (k : α → Action β) (f : Failure → Failure) :
    (x >>= k).mapFailure f = x.mapFailure f >>= fun a => (k a).mapFailure f := by
  funext s
  cases hx : (x s).outcome with
  | error e =>
    obtain ⟨ho, hs⟩ := bind_of_error (f := k) hx
    obtain ⟨ho', hs'⟩ := mapFailure_of_error (f := f) ho
    obtain ⟨hm, hms⟩ := mapFailure_of_error (f := f) hx
    obtain ⟨hb, hbs⟩ := bind_of_error (f := fun a => (k a).mapFailure f) hm
    exact Step.ext (ho'.trans hb.symm) (by rw [hs', hs, hbs, hms])
  | ok a =>
    obtain ⟨ho, hs⟩ := bind_of_ok (f := k) hx
    obtain ⟨hm, hms⟩ := mapFailure_of_ok (f := f) hx
    obtain ⟨hb, hbs⟩ := bind_of_ok (f := fun a => (k a).mapFailure f) hm
    rw [hms] at hb hbs
    cases hk : (k a (x s).store).outcome with
    | error e =>
      obtain ⟨hl, hls⟩ := mapFailure_of_error (f := f) (ho.trans hk)
      obtain ⟨hr, hrs⟩ := mapFailure_of_error (f := f) hk
      exact Step.ext (by rw [hl, hb, hr]) (by rw [hls, hs, hbs, hrs])
    | ok b =>
      obtain ⟨hl, hls⟩ := mapFailure_of_ok (f := f) (ho.trans hk)
      obtain ⟨hr, hrs⟩ := mapFailure_of_ok (f := f) hk
      exact Step.ext (by rw [hl, hb, hr]) (by rw [hls, hs, hbs, hrs])

/-- Failures that are replaced twice. -/
theorem mapFailure_mapFailure (x : Action α) (f g : Failure → Failure) :
    (x.mapFailure f).mapFailure g = x.mapFailure fun e => g (f e) := by
  funext s
  unfold mapFailure orElse
  cases x s with
  | mk o t h => cases o <;> rfl

/-! ## What a run shows -/

/-- Whenever the run succeeds, the characters with `p` that it puts behind the output of a sink are
`m`. -/
def Shows (sink : Nat) (p : Char → Bool) (x : Action α) (m : List Char) : Prop :=
  ∀ s a, (x s).outcome = .ok a →
    ∃ t : String, (x s).store.output sink = s.output sink ++ t ∧ t.toList.filter p = m

variable {p : Char → Bool} {m n : List Char}

theorem Shows.of_eq {x : Action α} (h : Shows sink p x m) (hmn : m = n) : Shows sink p x n :=
  hmn ▸ h

theorem shows_pure : Shows sink p (pure a) [] := by
  intro s b _
  exact ⟨"", by rw [pure_def]; simp, rfl⟩

theorem shows_write : Shows sink p (write sink t) (t.toList.filter p) := by
  intro s a _
  exact ⟨t, s.output_append_self sink t, rfl⟩

theorem Shows.bind {x : Action α} {f : α → Action β} (hx : Shows sink p x m)
    (hf : ∀ a, Shows sink p (f a) n) : Shows sink p (x >>= f) (m ++ n) := by
  intro s b h
  obtain ⟨a, ha, hb, hs⟩ := bind_eq_ok h
  obtain ⟨t, ht, hm⟩ := hx s a ha
  obtain ⟨u, hu, hn⟩ := hf a _ b hb
  refine ⟨t ++ u, ?_, ?_⟩
  · rw [hs, hu, ht, String.append_assoc]
  · rw [String.toList_append, List.filter_append, hm, hn]

theorem Shows.mapFailure {x : Action α} {f : Failure → Failure} (hx : Shows sink p x m) :
    Shows sink p (x.mapFailure f) m := by
  intro s a h
  obtain ⟨ho, hs⟩ := mapFailure_eq_ok h
  rw [hs]
  exact hx s a ho

theorem shows_of_fails {x : Action α} (h : ∀ s a, (x s).outcome ≠ .ok a) : Shows sink p x m :=
  fun s a ho => absurd ho (h s a)

/-- Whenever the run succeeds, its value has a property. -/
def Answers (x : Action α) (P : α → Prop) : Prop := ∀ s a, (x s).outcome = .ok a → P a

theorem answers_pure {P : α → Prop} (h : P a) : Answers (pure a) P := by
  intro s b hb
  cases hb
  exact h

theorem Answers.bind {x : Action α} {f : α → Action β} {P : α → Prop} {Q : β → Prop}
    (hx : Answers x P) (hf : ∀ a, P a → Answers (f a) Q) : Answers (x >>= f) Q := by
  intro s b h
  obtain ⟨a, ha, hb, -⟩ := bind_eq_ok h
  exact hf a (hx s a ha) _ b hb

theorem answers_true (x : Action α) : Answers x fun _ => True := fun _ _ _ => trivial

/-- A run that ends with a value answers that value. -/
theorem answers_then_pure (x : Action α) : Answers (x >>= fun _ => pure b) (· = b) :=
  (answers_true x).bind fun _ _ => answers_pure rfl

theorem answers_fail {P : α → Prop} (e : Failure) : Answers (fail e : Action α) P := by
  intro s a h
  cases h

/-- What follows a run needs to be right only for the values that the run answers. -/
theorem Answers.bind_congr {x : Action α} {f g : α → Action β} {P : α → Prop} (hx : Answers x P)
    (h : ∀ a, P a → f a = g a) : x >>= f = x >>= g := by
  funext s
  show Action.bind x f s = Action.bind x g s
  unfold Action.bind
  have hs := hx s
  cases he : x s with
  | mk o t grows =>
    rw [he] at hs
    cases o with
    | error e => rfl
    | ok a => simp only [h a (hs a rfl)]

/-! ## Runs in one store -/

/-- In a store, the run ends with an outcome and leaves another store. -/
def Ends (x : Action α) (s : Store) (o : Except Failure α) (t : Store) : Prop :=
  (x s).outcome = o ∧ (x s).store = t

section Ends

variable {x : Action α} {f : α → Action β} {s t' u' : Store} {o : Except Failure β} {e : Failure}

/-- What follows a run that succeeds starts in the store that this one leaves. -/
theorem Ends.bind (h : x.Ends s (.ok a) t') (hf : (f a).Ends t' o u') : (x >>= f).Ends s o u' := by
  obtain ⟨ho, hs⟩ := bind_of_ok (f := f) h.1
  rw [h.2] at ho hs
  exact ⟨ho.trans hf.1, hs.trans hf.2⟩

/-- Nothing follows a run that fails. -/
theorem Ends.bind_error (h : x.Ends s (.error e) t') : (x >>= f).Ends s (.error e) t' := by
  obtain ⟨ho, hs⟩ := bind_of_error (f := f) h.1
  exact ⟨ho, hs.trans h.2⟩

theorem Ends.mapFailure {g : Failure → Failure} (h : x.Ends s (.ok a) t') :
    (x.mapFailure g).Ends s (.ok a) t' := by
  obtain ⟨ho, hs⟩ := mapFailure_of_ok (f := g) h.1
  exact ⟨ho, hs.trans h.2⟩

theorem Ends.mapFailure_error {g : Failure → Failure} (h : x.Ends s (.error e) t') :
    (x.mapFailure g).Ends s (.error (g e)) t' := by
  obtain ⟨ho, hs⟩ := mapFailure_of_error (f := g) h.1
  exact ⟨ho, hs.trans h.2⟩

/-- After a failure, a run goes on in the store that the failure left. -/
theorem Ends.orElse_error {g : Failure → Action α} {o : Except Failure α}
    (h : x.Ends s (.error e) t') (hg : (g e).Ends t' o u') : (x.orElse g).Ends s o u' := by
  obtain ⟨ho, rfl⟩ := h
  unfold Ends orElse at *
  cases hx : x s with
  | mk r t grows =>
    rw [hx] at ho hg
    cases ho
    exact hg

end Ends

/-- In a store, the run succeeds with a value and leaves the store as it is. -/
def Still (x : Action α) (a : α) (s : Store) : Prop := x.Ends s (.ok a) s

/-- A run that leaves the store as it is is only its value for what follows it. -/
theorem Still.bind {x : Action α} {f : α → Action β} {s : Store} (h : x.Still a s) :
    (x >>= f) s = f a s := by
  obtain ⟨ho, hs⟩ := bind_of_ok (f := f) h.1
  rw [h.2] at ho hs
  exact Step.ext ho hs

/-- Behind a run, two continuations do the same if they do so with its value, in its store. -/
theorem bind_congr_at {x : Action α} {f g : α → Action β} {s : Store}
    (h : ∀ a, (x s).outcome = .ok a → f a (x s).store = g a (x s).store) :
    (x >>= f) s = (x >>= g) s := by
  cases hx : (x s).outcome with
  | error e =>
    obtain ⟨ho, hs⟩ := bind_of_error (f := f) hx
    obtain ⟨ho', hs'⟩ := bind_of_error (f := g) hx
    exact Step.ext (ho.trans ho'.symm) (hs.trans hs'.symm)
  | ok a =>
    obtain ⟨ho, hs⟩ := bind_of_ok (f := f) hx
    obtain ⟨ho', hs'⟩ := bind_of_ok (f := g) hx
    rw [h a hx] at ho hs
    exact Step.ext (ho.trans ho'.symm) (hs.trans hs'.symm)

/-- Two runs that do the same in a store do so whatever follows them. -/
theorem bind_congr_left {x y : Action α} {f : α → Action β} {s : Store} (h : x s = y s) :
    (x >>= f) s = (y >>= f) s := by
  show Action.bind x f s = Action.bind y f s
  rw [Action.bind, Action.bind, h]

/-! ## Sealed runs -/

/-- Whenever the run succeeds, the output of a sink is what it was before. -/
def Leaves (sink : Nat) (x : Action α) : Prop :=
  ∀ s a, (x s).outcome = .ok a → (x s).store.output sink = s.output sink

theorem Leaves.shows {x : Action α} (h : Leaves sink x) : Shows sink p x [] := by
  intro s a ho
  exact ⟨"", by rw [h s a ho, String.append_empty], rfl⟩

/-- The run, which fails once it has written to a sink. -/
def sealed (sink : Nat) (x : Action α) : Action α := fun s =>
  if (x s).store.output sink = s.output sink then x s
  else ⟨.error (.raised .runtime "a fragment wrote to the output"), (x s).store, (x s).grows⟩

theorem sealed_eq_ok {x : Action α} {s : Store} (h : (x.sealed sink s).outcome = .ok a) :
    x.sealed sink s = x s ∧ (x s).store.output sink = s.output sink := by
  unfold sealed at h ⊢
  split at h
  · next he => exact ⟨if_pos he, he⟩
  · cases h

theorem leaves_sealed (x : Action α) : Leaves sink (x.sealed sink) := by
  intro s a h
  obtain ⟨hs, ho⟩ := sealed_eq_ok h
  rw [hs, ho]

/-! ## Refinement -/

/-- Whenever the run `x` succeeds, `y` succeeds with the same value and leaves the same store. -/
def Refines (x y : Action α) : Prop :=
  ∀ s a, (x s).outcome = .ok a → (y s).outcome = .ok a ∧ (y s).store = (x s).store

theorem Refines.refl (x : Action α) : Refines x x := fun _ _ h => ⟨h, rfl⟩

theorem Refines.bind {x y : Action α} {f g : α → Action β} (hx : Refines x y)
    (hf : ∀ a, Refines (f a) (g a)) : Refines (x >>= f) (y >>= g) := by
  intro s b h
  obtain ⟨a, ha, hb, hs⟩ := bind_eq_ok h
  obtain ⟨hy, hys⟩ := hx s a ha
  obtain ⟨ho, hstore⟩ := bind_of_ok (f := g) hy
  obtain ⟨hg, hgs⟩ := hf a _ b hb
  rw [hys] at ho hstore
  exact ⟨ho.trans hg, by rw [hstore, hgs, hs]⟩

theorem Refines.mapFailure {x y : Action α} {f g : Failure → Failure} (h : Refines x y) :
    Refines (x.mapFailure f) (y.mapFailure g) := by
  intro s a ha
  obtain ⟨ho, hs⟩ := mapFailure_eq_ok ha
  obtain ⟨hy, hys⟩ := h s a ho
  obtain ⟨hy', hys'⟩ := mapFailure_of_ok (f := g) hy
  exact ⟨hy', by rw [hs, ← hys, hys']⟩

theorem refines_sealed (x : Action α) : Refines (x.sealed sink) x := by
  intro s a h
  obtain ⟨hs, -⟩ := sealed_eq_ok h
  rw [hs] at h ⊢
  exact ⟨h, rfl⟩

end Action

end MarkupTemplate
