import MarkupTemplate.Store

/-!
# Actions

A run that reads and changes the store and may fail. Whatever it does, what has been written to the
sinks stays written: a run only puts further texts behind, and a failure leaves the texts that were
written before it.

* `Action`: the runs, with the proof that their output only grows.
* `Action.write`: puts a text behind the output of a sink.
* `Action.orElse`: goes on after a failure, in the store that the failure left.
-/

namespace MarkupTemplate

/-- The end of a run that started in a store: its outcome, and a store with the output of the first
one still in place. -/
structure Step (α : Type) (start : Store) where
  outcome : Except Failure α
  store : Store
  grows : start.written <:+ store.written

/-- A run. -/
def Action (α : Type) : Type := (s : Store) → Step α s

namespace Step

theorem ext {α : Type} {s : Store} {a b : Step α s} (ho : a.outcome = b.outcome)
    (hs : a.store = b.store) : a = b := by
  cases a; cases b
  subst ho; subst hs
  rfl

end Step

namespace Action

/-- Changes nothing and succeeds. -/
protected def pure {α : Type} (a : α) : Action α := fun s => ⟨.ok a, s, List.suffix_rfl⟩

/-- Runs one action after another; a failure ends the run. -/
protected def bind {α β : Type} (x : Action α) (f : α → Action β) : Action β := fun s =>
  match x s with
  | ⟨.ok a, s₁, h₁⟩ =>
    match f a s₁ with
    | ⟨r, s₂, h₂⟩ => ⟨r, s₂, h₁.trans h₂⟩
  | ⟨.error e, s₁, h₁⟩ => ⟨.error e, s₁, h₁⟩

instance : Monad Action where
  pure := Action.pure
  bind := Action.bind

instance {α : Type} : Inhabited (Action α) :=
  ⟨fun s => ⟨.error (.raised .runtime ""), s, List.suffix_rfl⟩⟩

/-- Fails. -/
def fail {α : Type} (e : Failure) : Action α := fun s => ⟨.error e, s, List.suffix_rfl⟩

/-- Goes on after a failure, in the store that it left. -/
def orElse {α : Type} (x : Action α) (f : Failure → Action α) : Action α := fun s =>
  match x s with
  | ⟨.ok a, s₁, h₁⟩ => ⟨.ok a, s₁, h₁⟩
  | ⟨.error e, s₁, h₁⟩ =>
    match f e s₁ with
    | ⟨r, s₂, h₂⟩ => ⟨r, s₂, h₁.trans h₂⟩

/-- The outcome of a result that needs no store. -/
def ofExcept {α : Type} : Except Failure α → Action α
  | .ok a => pure a
  | .error e => fail e

instance : MonadExceptOf Failure Action where
  throw := fail
  tryCatch := orElse

instance : MonadLift (Except Failure) Action := ⟨ofExcept⟩

/-- Replaces every failure by another. -/
def mapFailure {α : Type} (f : Failure → Failure) (x : Action α) : Action α :=
  x.orElse fun e => fail (f e)

/-- Fails with an error of the host. -/
def raise {α : Type} (kind : HostErrorKind) (text : String) : Action α := fail (.raised kind text)

/-- The store as it is. -/
def store : Action Store := fun s => ⟨.ok s, s, List.suffix_rfl⟩

/-- The object of a number. -/
def cell? (id : Nat) : Action (Option Cell) := fun s => ⟨.ok (s.cell? id), s, List.suffix_rfl⟩

/-- Adds an object and answers its number. -/
def alloc (c : Cell) : Action Nat := fun s => ⟨.ok s.cells.size, s.push c, List.suffix_rfl⟩

/-- Gives an object back that nothing refers to any more. -/
def release (id : Nat) : Action Unit := fun s => ⟨.ok (), s.release id, by simp⟩

/-- Changes an object. -/
def put (id : Nat) (c : Cell) : Action Unit := fun s => ⟨.ok (), s.put id c, List.suffix_rfl⟩

/-- Puts a text behind the output of a sink. -/
def write (sink : Nat) (text : String) : Action Unit := fun s =>
  ⟨.ok (), s.append sink text, List.suffix_cons _ _⟩

/-- Adds an empty sink and answers its number. -/
def addSink : Action Nat := fun s => ⟨.ok s.sinks, s.addSink, List.suffix_rfl⟩

/-- A mark that was not given before, and is not zero. -/
def newMark : Action Nat := fun s => ⟨.ok (s.marks + 1), s.addMark, List.suffix_rfl⟩

/-- The text of a sink. -/
def output (sink : Nat) : Action String := fun s => ⟨.ok (s.output sink), s, List.suffix_rfl⟩

/-! ## Laws -/

theorem pure_def {α : Type} (a : α) (s : Store) :
    (pure a : Action α) s = ⟨.ok a, s, List.suffix_rfl⟩ := rfl

theorem bind_of_ok {α β : Type} {x : Action α} {f : α → Action β} {s : Store} {a : α}
    (h : (x s).outcome = .ok a) :
    ((x >>= f) s).outcome = (f a (x s).store).outcome
      ∧ ((x >>= f) s).store = (f a (x s).store).store := by
  show (Action.bind x f s).outcome = _ ∧ (Action.bind x f s).store = _
  unfold Action.bind
  generalize x s = r at h
  obtain ⟨o, t, g⟩ := r
  cases h
  exact ⟨rfl, rfl⟩

theorem bind_of_error {α β : Type} {x : Action α} {f : α → Action β} {s : Store} {e : Failure}
    (h : (x s).outcome = .error e) :
    ((x >>= f) s).outcome = .error e ∧ ((x >>= f) s).store = (x s).store := by
  show (Action.bind x f s).outcome = _ ∧ (Action.bind x f s).store = _
  unfold Action.bind
  generalize x s = r at h
  obtain ⟨o, t, g⟩ := r
  cases h
  exact ⟨rfl, rfl⟩

/-- Mapping a run's result by the identity changes nothing. -/
theorem id_map {α : Type} (x : Action α) : id <$> x = x := by
  funext s
  show Action.bind x _ s = _
  unfold Action.bind
  cases x s with
  | mk o t g => cases o <;> rfl

/-- Nesting of three runs does not matter. -/
theorem bind_assoc {α β γ : Type} (x : Action α) (f : α → Action β) (g : β → Action γ) :
    x >>= f >>= g = x >>= fun a => f a >>= g := by
  funext s
  show Action.bind (Action.bind x f) g s = Action.bind x (fun a => Action.bind (f a) g) s
  unfold Action.bind
  cases x s with
  | mk o t h =>
    cases o with
    | error e => rfl
    | ok a =>
      simp only
      cases f a t with
      | mk o₁ t₁ h₁ => cases o₁ <;> rfl

instance : LawfulMonad Action := LawfulMonad.mk' Action id_map (fun _ _ => rfl) bind_assoc

end Action

end MarkupTemplate
