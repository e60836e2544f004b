import Mathlib
import MarkupTemplate.Proofs.Action

/-!
# Payloads of comments and character data

A comment and a section of character data are made of parts, which are formatted one after the
other. What is formatted is written as one text, once every part is formatted; if one fails, nothing
is written.

* `Render.partTexts`: the texts of some parts, not escaped.
* `Render.run_payload`: what a node made of parts writes, and when.
* `Text.word_induction`: induction over a text along the places of a word.
* `Text.occurrences`: at how many places of a text a word stands.
-/
namespace MarkupTemplate

open MarkupTemplate.Action

namespace Render

variable (r : Rendering) (scope : Bindings) (parts : List Part)

/-- The text of a part, not escaped. Nothing is written for it. -/
def partText : Part → Action String
  | .literal s => pure s
  | .expression e => formatted r e scope
  | .unsupported kind lacking =>
    Action.raise .attr ("'" ++ kind ++ "' object has no attribute '" ++ lacking ++ "'")

/-- The texts of parts, each formatted behind the one before it. -/
def partTexts : Action (List String) := parts.mapM (partText r scope)

theorem joinedParts_eq :
    joinedParts r scope parts = partTexts r scope parts >>= fun texts =>
      pure (String.join texts) := by
  induction parts with
  | nil => rfl
  | cons part parts ih =>
    rw [partTexts, List.mapM_cons]
    cases part with
    | literal s =>
      simp only [joinedParts, ih, partTexts, partText, pure_bind, bind_assoc, String.join_cons]
    | expression e =>
      simp only [joinedParts, ih, partTexts, partText, pure_bind, bind_assoc, String.join_cons]
    | unsupported kind lacking => rfl

/-- A node that is its payload in some wrapping is written as one text behind the run that formats
its parts, and not at all when that run fails. -/
theorem run_payload (n : Node) (wrap : String → String) (hn : node r scope n = do
      let text ← joinedParts r scope parts
      write r (wrap text)
      return scope) (s : Store) :
    let formatting := partTexts r scope parts s
    let run := node r scope n s
    (∀ texts, formatting.outcome = .ok texts → run.outcome = .ok scope
        ∧ run.store = formatting.store.append r.sink (wrap (String.join texts)))
      ∧ ∀ e, formatting.outcome = .error e → run.outcome = .error e
        ∧ run.store = formatting.store := by
  rw [hn, joinedParts_eq]
  simp only [bind_assoc, pure_bind]
  exact ⟨fun texts h => bind_of_ok h, fun e h => bind_of_error h⟩

end Render

/-! ## Words in a text -/

namespace Text

/-- A text is empty, or starts with a word, or starts with a character with which the word does not
start there. -/
theorem word_induction (word : List Char) (hne : word ≠ []) {motive : List Char → Prop}
    (nil : motive []) (step : ∀ text, motive text → motive (word ++ text))
    (cons : ∀ c text, ¬ word <+: c :: text → motive text → motive (c :: text)) :
    ∀ text, motive text
  | [] => nil
  | c :: text => by
    by_cases h : word <+: c :: text
    · obtain ⟨rest, hrest⟩ := h
      have hlt : rest.length < (c :: text).length := by
        have := List.length_pos_iff.mpr hne
        rw [← hrest, List.length_append]
        omega
      rw [← hrest]
      exact step rest (word_induction word hne nil step cons rest)
    · exact cons c text h (word_induction word hne nil step cons text)
termination_by text => text.length
decreasing_by
  · exact hlt
  · exact Nat.lt_succ_self _

/-- At how many places of a text a word stands. -/
def occurrences (word text : List Char) : Nat := text.tails.countP (word.isPrefixOf ·)

@[simp] theorem occurrences_cons (word : List Char) (c : Char) (text : List Char) :
    occurrences word (c :: text)
      = occurrences word text + if word.isPrefixOf (c :: text) then 1 else 0 := by
  rw [occurrences, List.tails_cons, List.countP_cons]
  rfl

end Text

end MarkupTemplate
