import MarkupTemplate.FileTree

/-!
# Runs over file trees

What a run that may fail does to the state it works on: one that only looks leaves it, and one that
changes it in its last step leaves it at least when it fails.

* `runFrom`: the end of a run, with the rule for one run after another.
* `Inspects`, `Atomic`: the two kinds of runs.
* `FileTree.refusing`: the file system of a tree in which some paths must not be read or written.
* `FileTree.Holds`, `FileTree.Takes`: what a path gives to a reader and to a writer.
* `FileTree.readText_ok`, `FileTree.writeText_ok`: a read or a write that succeeds.
-/

namespace MarkupTemplate

/-! ## The ends of runs -/

section

variable {σ ε α β : Type}

/-- What a run ends with, and the state that it leaves. -/
def runFrom (s : σ) (x : ExceptT ε (StateM σ) α) : Except ε α × σ := Id.run (x.run.run s)

@[simp] theorem runFrom_pure (s : σ) (a : α) :
    runFrom s (pure a : ExceptT ε (StateM σ) α) = (.ok a, s) := rfl

@[simp] theorem runFrom_except (s : σ) (r : Except ε α) :
    runFrom s (ExceptT.mk (pure r) : ExceptT ε (StateM σ) α) = (r, s) := rfl

theorem runFrom_liftM (s : σ) (x : StateM σ α) :
    runFrom s (liftM x : ExceptT ε (StateM σ) α)
      = (.ok (Id.run (x.run s)).1, (Id.run (x.run s)).2) := rfl

theorem runFrom_bind (s : σ) (x : ExceptT ε (StateM σ) α) (f : α → ExceptT ε (StateM σ) β) :
    runFrom s (x >>= f) = match runFrom s x with
      | (.ok a, s₁) => runFrom s₁ (f a)
      | (.error e, s₁) => (.error e, s₁) := by
  unfold runFrom
  simp only [ExceptT.run_bind, StateT.run_bind, Id.run_bind]
  rcases Id.run (x.run.run s) with ⟨_ | a, s₁⟩ <;> rfl

theorem runFrom_bind_of_ok {s s₁ : σ} {x : ExceptT ε (StateM σ) α} {a : α}
    (h : runFrom s x = (.ok a, s₁)) (f : α → ExceptT ε (StateM σ) β) :
    runFrom s (x >>= f) = runFrom s₁ (f a) := by
  rw [runFrom_bind, h]

theorem runFrom_bind_ok {s s' : σ} {x : ExceptT ε (StateM σ) α} {f : α → ExceptT ε (StateM σ) β}
    {b : β} : runFrom s (x >>= f) = (.ok b, s') ↔
      ∃ a s₁, runFrom s x = (.ok a, s₁) ∧ runFrom s₁ (f a) = (.ok b, s') := by
  rw [runFrom_bind]
  rcases runFrom s x with ⟨_ | a, s₁⟩
  · simp
  · exact ⟨fun h => ⟨a, s₁, rfl, h⟩, by rintro ⟨_, _, ⟨rfl, rfl⟩, h⟩; exact h⟩

theorem runFrom_bind_error {s s' : σ} {x : ExceptT ε (StateM σ) α}
    {f : α → ExceptT ε (StateM σ) β} {e : ε} : runFrom s (x >>= f) = (.error e, s') ↔
      runFrom s x = (.error e, s')
        ∨ ∃ a s₁, runFrom s x = (.ok a, s₁) ∧ runFrom s₁ (f a) = (.error e, s') := by
  rw [runFrom_bind]
  rcases runFrom s x with ⟨_ | a, s₁⟩
  · simp
  · refine ⟨fun h => .inr ⟨a, s₁, rfl, h⟩, ?_⟩
    rintro (h | ⟨_, _, ⟨rfl, rfl⟩, h⟩)
    · simp at h
    · exact h

/-- True of a run that leaves the state as it is. -/
def Inspects (x : ExceptT ε (StateM σ) α) : Prop := ∀ s, (runFrom s x).2 = s

/-- True of a run that leaves the state as it is when it fails. -/
def Atomic (x : ExceptT ε (StateM σ) α) : Prop :=
  ∀ s e s', runFrom s x = (.error e, s') → s' = s

theorem Inspects.state {x : ExceptT ε (StateM σ) α} (h : Inspects x) {s s' : σ} {r : Except ε α}
    (hr : runFrom s x = (r, s')) : s' = s := by
  have := h s
  rwa [hr] at this

theorem Inspects.bind {x : ExceptT ε (StateM σ) α} {f : α → ExceptT ε (StateM σ) β}
    (hx : Inspects x) (hf : ∀ a, Inspects (f a)) : Inspects (x >>= f) := by
  intro s
  rw [runFrom_bind]
  rcases h : runFrom s x with ⟨_ | a, s₁⟩
  · exact hx.state h
  · rw [← hx.state h]
    exact hf a s₁

theorem Atomic.bind_pure {x : ExceptT ε (StateM σ) α} {f : α → β} (hx : Atomic x) :
    Atomic (x >>= fun a => pure (f a)) := by
  intro s e s' h
  rcases runFrom_bind_error.mp h with h | ⟨a, s₁, -, h⟩
  · exact hx s e s' h
  · simp at h

end

/-! ## Failures of files -/

theorem FileFault.toFailure_host (f : FileFault) (path : Path) :
    ∃ e, f.toFailure path = .host e := by
  cases f <;> exact ⟨_, rfl⟩

theorem FileSystem.textOfBytes_host {bytes : List UInt8} {f : Failure}
    (h : textOfBytes bytes = .error f) : ∃ e, f = .host e := by
  unfold textOfBytes at h
  split at h
  · cases h
  · cases h
    exact ⟨_, rfl⟩

/-! ## Trees that turn accesses down -/

/-- What a file is opened for. -/
inductive Access where
  | reading
  | writing
deriving DecidableEq, Repr

namespace FileTree

/-- The file system of a tree in which a path can be refused, for whatever reason. -/
def refusing (refused : Access → Path → Option FileFault) : FileSystem (StateM FileTree) where
  read path :=
    match refused .reading path with
    | some f => return .error f
    | none => system.read path
  write path text :=
    match refused .writing path with
    | some f => return .error f
    | none => system.write path text

/-- Where nothing is refused, the tree alone decides. -/
theorem refusing_none : refusing (fun _ _ => none) = system := rfl

variable {refused : Access → Path → Option FileFault} {t t' : FileTree} {path : Path}

/-- The path may be opened. -/
def Grants (refused : Access → Path → Option FileFault) (a : Access) (path : Path) : Prop :=
  path.isBroken = false ∧ refused a path = none

theorem not_grants {a : Access} (h : ¬ Grants refused a path) :
    path.isBroken = true ∨ path.isBroken = false ∧ ∃ f, refused a path = some f := by
  unfold Grants at h
  cases hb : path.isBroken with
  | true => exact .inl rfl
  | false =>
    have hr : refused a path ≠ none := fun hr => h ⟨hb, hr⟩
    exact .inr ⟨rfl, Option.ne_none_iff_exists'.mp hr⟩

/-- The path leads to a file with the given text in it. -/
def Holds (t : FileTree) (refused : Access → Path → Option FileFault) (path : Path)
    (text : List Char) : Prop :=
  Grants refused .reading path ∧
    ∃ way bytes, t.find path = .ok (.file way bytes) ∧ FileSystem.textOfBytes bytes = .ok text

/-- The path leads to a file, or to a place for one, that a text can be put into. -/
def Takes (t : FileTree) (refused : Access → Path → Option FileFault) (path : Path)
    (way : List String) : Prop :=
  Grants refused .writing path ∧
    (t.find path = .ok (.vacant way) ∨ ∃ bytes, t.find path = .ok (.file way bytes))

theorem read_eq_ok {bytes : List UInt8} :
    t.read path = .ok bytes ↔ ∃ way, t.find path = .ok (.file way bytes) := by
  unfold read
  rcases t.find path with f | _ | ⟨way, bytes'⟩ | way
  · simp [bind, Except.bind]
  · simp [bind, Except.bind, throw, throwThe, MonadExceptOf.throw]
  · simp [bind, Except.bind, pure, Except.pure]
  · simp [bind, Except.bind, throw, throwThe, MonadExceptOf.throw]

theorem write_eq_ok {text : String} : t.write path text = .ok t' ↔
    ∃ way, (t.find path = .ok (.vacant way) ∨ ∃ bytes, t.find path = .ok (.file way bytes))
      ∧ t' = t.put way text.toUTF8.toList := by
  unfold write
  rcases t.find path with f | _ | ⟨way, bytes⟩ | way
  · simp [bind, Except.bind]
  · simp [bind, Except.bind, throw, throwThe, MonadExceptOf.throw]
  · simp [bind, Except.bind, pure, Except.pure, eq_comm]
  · simp [bind, Except.bind, pure, Except.pure, eq_comm]

/-! ## Reading and writing -/

theorem run_write (t : FileTree) (path : Path) (text : String) :
    Id.run ((system.write path text).run t) = match t.write path text with
      | .ok t' => (.ok (), t')
      | .error f => (.error f, t) := by
  simp only [system, bind_pure_comp, StateT.run_bind, StateT.run_get, pure_bind]
  cases t.write path text <;> rfl

/-- What a tree answers when a file is read. -/
theorem runFrom_read {ε : Type} :
    runFrom t (liftM ((refusing refused).read path) : ExceptT ε (StateM FileTree) _)
      = (.ok ((refused .reading path).elim (t.read path) .error), t) := by
  unfold refusing
  cases h : refused .reading path with
  | some f => simp only [h]; rfl
  | none => simp only [h]; rfl

/-- What a tree answers when a text is written, and the tree that there is then. -/
theorem runFrom_write {ε : Type} {text : String} :
    runFrom t (liftM ((refusing refused).write path text) : ExceptT ε (StateM FileTree) _)
      = match (refused .writing path).elim (t.write path text) .error with
        | .ok t' => (.ok (.ok ()), t')
        | .error f => (.ok (.error f), t) := by
  rw [runFrom_liftM]
  unfold refusing
  cases h : refused .writing path with
  | some f => simp only [h]; rfl
  | none =>
    simp only [h, run_write, Option.elim_none]
    cases t.write path text <;> rfl

/-- What is read where nothing speaks against opening a file. -/
theorem runFrom_readText (h : Grants refused .reading path) :
    runFrom t ((refusing refused).readText path) = ((match t.read path with
      | .ok bytes => FileSystem.textOfBytes bytes
      | .error f => .error (f.toFailure path)), t) := by
  obtain ⟨hb, hr⟩ := h
  unfold FileSystem.readText
  simp only [hb, Bool.false_eq_true, if_false]
  rw [runFrom_bind, runFrom_read, hr, Option.elim_none]
  cases t.read path <;> rfl

theorem runFrom_readText_refused (t : FileTree) (h : ¬ Grants refused .reading path) :
    ∃ e, runFrom t ((refusing refused).readText path) = (.error (.host e), t) := by
  unfold FileSystem.readText
  rcases not_grants h with hb | ⟨hb, f, hr⟩
  · simp only [hb, if_true]
    exact ⟨_, rfl⟩
  · obtain ⟨e, he⟩ := f.toFailure_host path
    refine ⟨e, ?_⟩
    simp only [hb, Bool.false_eq_true, if_false]
    rw [runFrom_bind, runFrom_read, hr, ← he]
    rfl

/-- A file that cannot be read is an error of the host. -/
theorem readText_error {f : Failure}
    (h : runFrom t ((refusing refused).readText path) = (.error f, t')) : ∃ e, f = .host e := by
  by_cases hg : Grants refused .reading path
  · rw [runFrom_readText hg] at h
    obtain ⟨h, -⟩ := Prod.mk.inj h
    split at h
    · exact FileSystem.textOfBytes_host h
    · cases h
      exact FileFault.toFailure_host _ _
  · obtain ⟨e, he⟩ := runFrom_readText_refused t hg
    rw [he] at h
    cases h
    exact ⟨e, rfl⟩

/-- A text is read exactly where the path leads to a file with that text in it. -/
theorem readText_ok {text : List Char} :
    runFrom t ((refusing refused).readText path) = (.ok text, t') ↔
      t' = t ∧ t.Holds refused path text := by
  unfold Holds
  by_cases h : Grants refused .reading path
  · have hr : ∀ bytes, t.read path = .ok bytes ↔ _ := fun _ => read_eq_ok
    rw [runFrom_readText h]
    cases hb : t.read path with
    | error f =>
      simp only [hb] at hr
      simp only [Prod.mk.injEq, reduceCtorEq, false_and, false_iff]
      rintro ⟨-, -, way, bytes, hf, -⟩
      exact absurd ((hr bytes).mpr ⟨way, hf⟩) (by simp)
    | ok bytes =>
      obtain ⟨way, hf⟩ := (hr bytes).mp hb
      simp only [hf, Prod.mk.injEq, Except.ok.injEq, Entry.file.injEq]
      constructor
      · rintro ⟨ht, rfl⟩
        exact ⟨rfl, h, way, bytes, ⟨rfl, rfl⟩, ht⟩
      · rintro ⟨rfl, -, _, _, ⟨rfl, rfl⟩, ht⟩
        exact ⟨ht, rfl⟩
  · obtain ⟨e, he⟩ := runFrom_readText_refused t h
    simp [he, h]

/-- What a written text changes where nothing speaks against opening a file. -/
theorem runFrom_writeText {text : String} (h : Grants refused .writing path) :
    runFrom t ((refusing refused).writeText path text) = match t.write path text with
      | .ok t' => (.ok (), t')
      | .error f => (.error (f.toFailure path), t) := by
  obtain ⟨hb, hr⟩ := h
  unfold FileSystem.writeText
  simp only [hb, Bool.false_eq_true, if_false]
  rw [runFrom_bind, runFrom_write, hr, Option.elim_none]
  cases t.write path text <;> rfl

theorem runFrom_writeText_refused (t : FileTree) (text : String)
    (h : ¬ Grants refused .writing path) :
    ∃ e, runFrom t ((refusing refused).writeText path text) = (.error (.host e), t) := by
  unfold FileSystem.writeText
  rcases not_grants h with hb | ⟨hb, f, hr⟩
  · simp only [hb, if_true]
    exact ⟨_, rfl⟩
  · obtain ⟨e, he⟩ := f.toFailure_host path
    refine ⟨e, ?_⟩
    simp only [hb, Bool.false_eq_true, if_false]
    rw [runFrom_bind, runFrom_write, hr, ← he]
    rfl

/-- A file that cannot be written is an error of the host. -/
theorem writeText_error {text : String} {f : Failure}
    (h : runFrom t ((refusing refused).writeText path text) = (.error f, t')) :
    ∃ e, f = .host e := by
  by_cases hg : Grants refused .writing path
  · rw [runFrom_writeText hg] at h
    split at h
    · cases h
    · obtain ⟨h, -⟩ := Prod.mk.inj h
      cases h
      exact FileFault.toFailure_host _ _
  · obtain ⟨e, he⟩ := runFrom_writeText_refused t text hg
    rw [he] at h
    cases h
    exact ⟨e, rfl⟩

/-- A text is written exactly where the path can take it, and then nothing but its file is new. -/
theorem writeText_ok {text : String} :
    runFrom t ((refusing refused).writeText path text) = (.ok (), t') ↔
      ∃ way, t.Takes refused path way ∧ t' = t.put way text.toUTF8.toList := by
  unfold Takes
  by_cases h : Grants refused .writing path
  · have hw : t.write path text = .ok t' ↔ _ := write_eq_ok
    rw [runFrom_writeText h]
    cases hw' : t.write path text with
    | error f => simpa [hw', h] using hw
    | ok t₁ => simpa [hw', h] using hw
  · obtain ⟨e, he⟩ := runFrom_writeText_refused t text h
    simp [he, h]

end FileTree

end MarkupTemplate
