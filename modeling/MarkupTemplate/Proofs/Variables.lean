import Mathlib.Data.List.Forall2
import Mathlib.Data.List.TakeWhile
import MarkupTemplate.Proofs.Action
import MarkupTemplate.Proofs.FileTree
import MarkupTemplate.Variables

/-!
# What variables a run gets

The items of a command line hide the members of its file, and each hides the items before it.

* `Variables.Sets`: the name and the value that an item stands for.
* `Variables.Says`: the value that counts for a name, with what items and a file say.
* `Variables.load_ok`: when variables are loaded, and which.
* `Variables.Binds`: the host values of the names that a template is then rendered with.
-/

namespace MarkupTemplate

/-- The value is what a JSON value becomes in some store. -/
def Json.Gives (j : Json) (v : Value) : Prop := ∃ s, (j.toValue s).outcome = .ok v

namespace Variables

/-! ## Items -/

/-- The value that a text tells: as JSON if it is that, and else as it is. A number of too many
digits is JSON but tells none. -/
def Tells (raw : List Char) (j : Json) : Prop :=
  Json.parse raw = .ok j
    ∨ j = .str (String.ofList raw) ∧ ∃ f, Json.parse raw = .error f ∧ f.isSyntactic = true

/-- What an item stands for. It is cut at its first equals sign; the name comes before it, and what
comes behind it tells the value. -/
def Sets (item : String) (s : String × Json) : Prop :=
  Text.isIdentifier s.1.toList = true ∧ '=' ∉ s.1.toList ∧
    ∃ raw, item.toList = s.1.toList ++ '=' :: raw ∧ Tells raw s.2

theorem cutAtSign?_eq_some {s name value : List Char} :
    cutAtSign? s = some (name, value) ↔ s = name ++ '=' :: value ∧ '=' ∉ name := by
  have cut := List.takeWhile_append_dropWhile (p := (· != '=')) (l := s)
  constructor
  · intro h
    unfold cutAtSign? at h
    split at h
    · next v hd =>
      simp only [Option.some.injEq, Prod.mk.injEq] at h
      obtain ⟨rfl, rfl⟩ := h
      refine ⟨by rw [← hd, cut], fun hm => ?_⟩
      simpa using List.mem_takeWhile_imp hm
    · simp at h
  · rintro ⟨rfl, hn⟩
    have hp : ∀ c ∈ name, (c != '=') = true := by
      intro c hc
      simp only [bne_iff_ne, ne_eq]
      rintro rfl
      exact hn hc
    unfold cutAtSign?
    rw [List.dropWhile_append_of_pos hp, List.takeWhile_append_of_pos hp]
    simp

theorem valueOf?_eq_ok {raw : List Char} {j : Json} : valueOf? raw = .ok j ↔ Tells raw j := by
  unfold valueOf? Tells
  cases Json.parse raw with
  | ok j' => simp
  | error f =>
    by_cases hf : f.isSyntactic = true
    · simp only [hf, if_true, Except.ok.injEq, reduceCtorEq, false_or, Except.error.injEq]
      exact ⟨fun h => ⟨h.symm, f, rfl, hf⟩, fun h => h.1.symm⟩
    · simp [hf]

theorem ofItem?_eq_ok {item : String} {s : String × Json} :
    ofItem? item = .ok s ↔ Sets item s := by
  unfold ofItem? Sets
  constructor
  · intro h
    split at h
    · next name raw hc =>
      obtain ⟨hi, hn⟩ := cutAtSign?_eq_some.mp hc
      split at h
      · next hname =>
        cases hv : valueOf? raw with
        | error e => simp [hv, bind, Except.bind] at h
        | ok j =>
          simp only [hv, bind, Except.bind, pure, Except.pure, Except.ok.injEq] at h
          subst h
          simp only [String.toList_ofList]
          exact ⟨hname, hn, raw, hi, valueOf?_eq_ok.mp hv⟩
      · simp at h
    · simp at h
  · rintro ⟨hname, hn, raw, hi, hv⟩
    rw [cutAtSign?_eq_some.mpr ⟨hi, hn⟩]
    simp only [hname, if_true]
    rw [valueOf?_eq_ok.mpr hv]
    simp [bind, Except.bind, pure, Except.pure]

theorem addItems?_eq_ok {base scope : Variables} {items : List String} :
    addItems? base items = .ok scope ↔
      ∃ sets, List.Forall₂ Sets items sets ∧ scope = sets.reverse ++ base := by
  induction items generalizing base with
  | nil => simp [addItems?, eq_comm]
  | cons item rest ih =>
    simp only [List.forall₂_cons_left_iff]
    unfold addItems?
    constructor
    · intro h
      cases hs : ofItem? item with
      | error e => simp [hs, bind, Except.bind] at h
      | ok s =>
        simp only [hs, bind, Except.bind] at h
        obtain ⟨sets, hsets, rfl⟩ := ih.mp h
        exact ⟨s :: sets, ⟨s, sets, ofItem?_eq_ok.mp hs, hsets, rfl⟩, by simp⟩
    · rintro ⟨_, ⟨s, sets, hs, hsets, rfl⟩, rfl⟩
      rw [ofItem?_eq_ok.mpr hs]
      simp only [bind, Except.bind]
      exact ih.mpr ⟨sets, hsets, by simp⟩

/-! ## The file -/

/-- What the file of variables says, if one is named. -/
def InFile (t : FileTree) (refused : Access → Path → Option FileFault) (file : String)
    (members : Variables) : Prop :=
  if file = "" then members = []
  else ∃ source, t.Holds refused (Path.ofText file) source ∧ Json.parse source = .ok (.obj members)

variable {refused : Access → Path → Option FileFault} {t t' : FileTree}

theorem ofJson?_eq_ok {file : String} {source : List Char} {members : Variables} :
    ofJson? file source = .ok members ↔ Json.parse source = .ok (.obj members) := by
  unfold ofJson?
  cases Json.parse source with
  | error f => simp
  | ok j => cases j <;> simp

theorem ofFile_ok {file : String} {members : Variables} :
    runFrom t (ofFile (FileTree.refusing refused) file) = (.ok members, t') ↔
      t' = t ∧ InFile t refused file members := by
  unfold ofFile InFile
  by_cases hf : file = ""
  · simp [hf, eq_comm, and_comm]
  · simp only [hf, if_false]
    rw [runFrom_bind_ok]
    simp only [FileTree.readText_ok, runFrom_except, Prod.mk.injEq, ofJson?_eq_ok]
    constructor
    · rintro ⟨source, _, ⟨rfl, hs⟩, hp, rfl⟩
      exact ⟨rfl, source, hs, hp⟩
    · rintro ⟨rfl, source, hs, hp⟩
      exact ⟨source, _, ⟨rfl, hs⟩, hp, rfl⟩

/-- Variables are loaded exactly where the file can be read and every item says something, and then
a later item stands before an earlier one and every item before the file. -/
theorem load_ok {file : String} {items : List String} {scope : Variables} :
    runFrom t (load (FileTree.refusing refused) file items) = (.ok scope, t') ↔
      t' = t ∧ ∃ members sets, InFile t refused file members ∧ List.Forall₂ Sets items sets
        ∧ scope = sets.reverse ++ members := by
  unfold load
  rw [runFrom_bind_ok]
  simp only [ofFile_ok, runFrom_except, Prod.mk.injEq, addItems?_eq_ok]
  constructor
  · rintro ⟨members, _, ⟨rfl, hm⟩, ⟨sets, hs, rfl⟩, rfl⟩
    exact ⟨rfl, members, sets, hm, hs, rfl⟩
  · rintro ⟨rfl, members, sets, hm, hs, rfl⟩
    exact ⟨members, _, ⟨rfl, hm⟩, ⟨sets, hs, rfl⟩, rfl⟩

theorem ofItem?_error {item : String} {f : Failure} (h : ofItem? item = .error f) :
    ∃ e, f = .host e := by
  unfold ofItem? at h
  split at h
  · next name raw _ =>
    split at h
    · cases hv : valueOf? raw with
      | ok j =>
        rw [hv] at h
        cases h
      | error e =>
        rw [hv] at h
        cases h
        unfold valueOf? at hv
        split at hv
        · cases hv
        · split at hv
          · cases hv
          · cases hv
            exact ⟨_, rfl⟩
    · cases h
      exact ⟨_, rfl⟩
  · cases h
    exact ⟨_, rfl⟩

theorem addItems?_error {base : Variables} {items : List String} {f : Failure}
    (h : addItems? base items = .error f) : ∃ e, f = .host e := by
  induction items generalizing base with
  | nil => cases h
  | cons item rest ih =>
    unfold addItems? at h
    cases hi : ofItem? item with
    | error e =>
      rw [hi] at h
      cases h
      exact ofItem?_error hi
    | ok s =>
      rw [hi] at h
      exact ih h

theorem ofFile_error {file : String} {f : Failure}
    (h : runFrom t (ofFile (FileTree.refusing refused) file) = (.error f, t')) :
    ∃ e, f = .host e := by
  unfold ofFile at h
  split at h
  · cases h
  · rcases runFrom_bind_error.mp h with h | ⟨source, _, -, h⟩
    · exact FileTree.readText_error h
    · unfold ofJson? at h
      rw [runFrom_except] at h
      obtain ⟨h, -⟩ := Prod.mk.inj h
      split at h
      · cases h
      · cases h
        exact ⟨_, rfl⟩
      · cases h
        exact ⟨_, rfl⟩

/-- Variables that cannot be loaded are an error of the host. -/
theorem load_error {file : String} {items : List String} {f : Failure}
    (h : runFrom t (load (FileTree.refusing refused) file items) = (.error f, t')) :
    ∃ e, f = .host e := by
  unfold load at h
  rcases runFrom_bind_error.mp h with h | ⟨members, _, -, h⟩
  · exact ofFile_error h
  · rw [runFrom_except] at h
    exact addItems?_error (Prod.mk.inj h).1

/-- The value that counts for a name: that of the last item that sets it, and that of the file only
where no item does. -/
inductive Says (members sets : Variables) (name : String) : Json → Prop
  | item (before after : Variables) (j : Json) (place : sets = before ++ (name, j) :: after)
      (last : ∀ s ∈ after, s.1 ≠ name) : Says members sets name j
  | member (before after : Variables) (j : Json) (unset : ∀ s ∈ sets, s.1 ≠ name)
      (place : members = before ++ (name, j) :: after) (first : ∀ m ∈ before, m.1 ≠ name) :
      Says members sets name j

theorem says_iff_find? {members sets : Variables} {name : String} {j : Json} :
    Says members sets name j ↔
      (sets.reverse ++ members).find? (·.1 == name) = some (name, j) := by
  rw [List.find?_append, Option.or_eq_some_iff, List.find?_eq_some_iff_append,
    List.find?_eq_some_iff_append, List.find?_eq_none]
  constructor
  · rintro (⟨before, after, _, rfl, last⟩ | ⟨before, after, _, unset, rfl, first⟩)
    · refine .inl ⟨by simp, after.reverse, before.reverse, by simp, ?_⟩
      simpa using last
    · refine .inr ⟨by simpa using unset, by simp, before, after, rfl, ?_⟩
      simpa using first
  · rintro (⟨-, after, before, hs, last⟩ | ⟨unset, -, before, after, rfl, first⟩)
    · refine .item before.reverse after.reverse j ?_ (by simpa using last)
      simpa using congrArg List.reverse hs
    · exact .member before after j (by simpa using unset) rfl (by simpa using first)

/-! ## Host values -/

mutual

/-- Every JSON value has a host value. -/
theorem exists_toValue (j : Json) (s : Store) : ∃ v, (j.toValue s).outcome = .ok v := by
  cases j with
  | arr items =>
    obtain ⟨vs, hvs⟩ := exists_toValues items s
    exact ⟨_, (Action.bind_of_ok hvs).1⟩
  | obj members =>
    obtain ⟨vs, hvs⟩ := exists_toEntries members s
    exact ⟨_, (Action.bind_of_ok hvs).1⟩
  | _ => exact ⟨_, rfl⟩

theorem exists_toValues (js : List Json) (s : Store) :
    ∃ vs, (Json.toValues js s).outcome = .ok vs := by
  cases js with
  | nil => exact ⟨_, rfl⟩
  | cons j rest =>
    obtain ⟨v, hv⟩ := exists_toValue j s
    obtain ⟨vs, hvs⟩ := exists_toValues rest (j.toValue s).store
    exact ⟨_, (Action.bind_of_ok hv).1.trans (Action.bind_of_ok hvs).1⟩

theorem exists_toEntries (members : List (String × Json)) (s : Store) :
    ∃ es, (Json.toEntries members s).outcome = .ok es := by
  cases members with
  | nil => exact ⟨_, rfl⟩
  | cons m rest =>
    obtain ⟨v, hv⟩ := exists_toValue m.2 s
    obtain ⟨es, hes⟩ := exists_toEntries rest (m.2.toValue s).store
    exact ⟨_, (Action.bind_of_ok hv).1.trans (Action.bind_of_ok hes).1⟩

end

theorem exists_bindings (scope : Variables) (s : Store) :
    ∃ b, (bindings scope s).outcome = .ok b := by
  induction scope generalizing s with
  | nil => exact ⟨_, rfl⟩
  | cons m rest ih =>
    obtain ⟨v, hv⟩ := exists_toValue m.2 s
    obtain ⟨b, hb⟩ := ih (m.2.toValue s).store
    exact ⟨_, (Action.bind_of_ok hv).1.trans (Action.bind_of_ok hb).1⟩

/-- Host values are made of all variables, one by one. -/
theorem forall₂_of_bindings {scope : Variables} {s : Store} {b : Bindings}
    (h : (bindings scope s).outcome = .ok b) :
    List.Forall₂ (fun m e => m.1 = e.1 ∧ m.2.Gives e.2) scope b := by
  induction scope generalizing s b with
  | nil =>
    cases h
    exact .nil
  | cons m rest ih =>
    obtain ⟨v, hv, h, -⟩ := Action.bind_eq_ok h
    obtain ⟨bs, hbs, h, -⟩ := Action.bind_eq_ok h
    cases h
    exact .cons ⟨rfl, _, hv⟩ (ih hbs)

theorem get?_of_forall₂ {scope : Variables} {b : Bindings}
    (h : List.Forall₂ (fun m e => m.1 = e.1 ∧ m.2.Gives e.2) scope b) (name : String) :
    (∀ v, b.get? name = some v → ∃ j, scope.find? (·.1 == name) = some (name, j) ∧ j.Gives v)
      ∧ ∀ j, scope.find? (·.1 == name) = some (name, j) →
        ∃ v, b.get? name = some v ∧ j.Gives v := by
  unfold Bindings.get?
  induction h with
  | nil => simp
  | @cons m e scope b hme _ ih =>
    obtain ⟨n, j⟩ := m
    obtain ⟨n', v⟩ := e
    obtain ⟨rfl, hj⟩ := hme
    by_cases hn : n = name
    · subst hn
      simpa using hj
    · simpa [hn] using ih

/-- The host values that a template is rendered with: all of them are made before, and a name has
the value that counts for it. -/
structure Binds (members sets : Variables) (scope : Bindings) (store : Store) : Prop where
  outcome : (bindings (sets.reverse ++ members) Store.empty).outcome = .ok scope
  store : (bindings (sets.reverse ++ members) Store.empty).store = store
  said : ∀ name v, scope.get? name = some v → ∃ j, Says members sets name j ∧ j.Gives v
  bound : ∀ name j, Says members sets name j → ∃ v, scope.get? name = some v ∧ j.Gives v

theorem binds_of_bindings {members sets : Variables} {scope : Bindings}
    (h : (bindings (sets.reverse ++ members) Store.empty).outcome = .ok scope) :
    Binds members sets scope (bindings (sets.reverse ++ members) Store.empty).store := by
  have hb := get?_of_forall₂ (forall₂_of_bindings h)
  refine ⟨h, rfl, fun name v hv => ?_, fun name j hj => ?_⟩
  · obtain ⟨j, hj, hg⟩ := (hb name).1 v hv
    exact ⟨j, says_iff_find?.mpr hj, hg⟩
  · exact (hb name).2 j (says_iff_find?.mp hj)

end Variables

end MarkupTemplate
