import MarkupTemplate.Proofs.Injection
import MarkupTemplate.Proofs.Payload
import MarkupTemplate.Proofs.WellFormed

/-!
# Entities

Texts and attribute values are escaped by replacing one character after the other in the whole of
them. Since the ampersand, which every entity starts with, is replaced first, nothing is replaced
twice: what comes out has each character of the text replaced by itself, and reading its entities
from left to right gives the text back.

* `Escape.substitute`: every character of a text replaced by itself.
* `Escape.decode`: the entities of a text read from left to right.
* `Escape.Reversible`: an escaping that substitutes entities and can be undone.
* `Render.output_writtenParts`: what is written of parts that do not write by themselves.
* `escapes_reversible`: both escapings are reversible, and a concatenated value is escaped as one.
-/
namespace MarkupTemplate

open MarkupTemplate.Action

namespace Escape

/-- The entities of the characters that are replaced between tags. -/
def textEntities : List (Char × String) := [('&', "&amp;"), ('<', "&lt;"), ('>', "&gt;")]

/-- The entities of the characters that are replaced in attribute values: all that there are. -/
def attributeEntities : List (Char × String) :=
  textEntities ++ [('\x27', "&apos;"), ('"', "&quot;")]

/-- What a character is replaced by: its entity, or itself if it has none. -/
def code (table : List (Char × String)) (c : Char) : List Char :=
  match table.find? (·.1 == c) with
  | some (_, entity) => entity.toList
  | none => [c]

/-- Every character of a text replaced, each by itself. -/
def substitute (table : List (Char × String)) (text : List Char) : List Char :=
  text.flatMap (code table)

/-- Reads a text from left to right, an entity as the character that it stands for and any other
character as itself. -/
def decode : List Char → List Char
  | [] => []
  | c :: rest =>
    match attributeEntities.find? (·.2.toList.isPrefixOf (c :: rest)) with
    | some (d, entity) => d :: decode (rest.drop (entity.length - 1))
    | none => c :: decode rest
termination_by text => text.length
decreasing_by
  · simp only [List.length_drop, List.length_cons]
    omega
  · exact Nat.lt_succ_self _

/-- An escaping that replaces each character of a text by itself, as a table says, and can be
undone. -/
structure Reversible (escape : List Char → List Char) (table : List (Char × String)) : Prop where
  one_pass : ∀ text, escape text = substitute table text
  append : ∀ text behind, escape (text ++ behind) = escape text ++ escape behind
  /-- No replaced character is left, other than the one that entities start with. -/
  absent : ∀ text, ∀ entry ∈ table, entry.1 ≠ '&' → entry.1 ∉ escape text
  /-- That one is left only where an entity starts. -/
  ampersand : ∀ text rest, '&' :: rest <:+ escape text →
    ∃ entry ∈ table, entry.2.toList <+: '&' :: rest
  decode : ∀ text, decode (escape text) = text
  injective : Function.Injective escape

/-! ## One pass -/

theorem substitute_nil (text : List Char) : substitute [] text = text :=
  List.flatMap_singleton' text

/-- Replacing one more character behind the others replaces it in the text only, since it stands in
none of their entities. -/
theorem replaceChar_substitute {table : List (Char × String)} {c : Char} (entity : String)
    (h : ∀ entry ∈ table, entry.1 ≠ c ∧ c ∉ entry.2.toList) (text : List Char) :
    replaceChar c entity (substitute table text) = substitute (table ++ [(c, entity)]) text := by
  rw [replaceChar, substitute, substitute, List.flatMap_assoc]
  congr 1
  funext d
  rw [code, code, List.find?_append]
  cases hf : table.find? (·.1 == d) with
  | none =>
    by_cases hd : d = c
    · simp [hd]
    · simp [hd, Ne.symm hd]
  | some entry =>
    have hc := (h entry (List.mem_of_find?_eq_some hf)).2
    calc
      _ = entry.2.toList.flatMap fun x => [x] :=
        List.flatMap_congr fun x hx => if_neg (ne_of_mem_of_not_mem hx hc)
      _ = entry.2.toList := List.flatMap_singleton' _

theorem escapeText_eq (text : List Char) : escapeText text = substitute textEntities text := by
  have hamp : replaceChar '&' "&amp;" text = substitute [('&', "&amp;")] text := by
    conv_lhs => rw [← substitute_nil text]
    exact replaceChar_substitute _ (by decide) text
  rw [escapeText, hamp, replaceChar_substitute _ (by decide), replaceChar_substitute _ (by decide)]
  rfl

theorem escapeAttribute_eq (text : List Char) :
    escapeAttribute text = substitute attributeEntities text := by
  rw [escapeAttribute, escapeText_eq, replaceChar_substitute _ (by decide),
    replaceChar_substitute _ (by decide)]
  rfl

/-! ## Entities -/

/-- Every entity is an ampersand and then none of the characters that have an entity. -/
theorem entity_eq {entry : Char × String} (h : entry ∈ attributeEntities) :
    ∃ name, entry.2.toList = '&' :: name ∧ ∀ other ∈ attributeEntities, other.1 ∉ name := by
  have hall : ∀ entry ∈ attributeEntities, entry.2.toList = '&' :: entry.2.toList.tail
      ∧ ∀ other ∈ attributeEntities, other.1 ∉ entry.2.toList.tail := by decide
  exact ⟨_, hall entry h⟩

theorem decode_entity {entry : Char × String} (h : entry ∈ attributeEntities) (rest : List Char) :
    decode (entry.2.toList ++ rest) = entry.1 :: decode rest := by
  simp only [attributeEntities, textEntities, List.cons_append, List.nil_append, List.mem_cons,
    List.not_mem_nil, or_false] at h
  rcases h with rfl | rfl | rfl | rfl | rfl <;>
    · simp [decode, attributeEntities, textEntities]
      rfl

theorem decode_cons {c : Char} (h : c ≠ '&') (rest : List Char) :
    decode (c :: rest) = c :: decode rest := by
  have hnone : attributeEntities.find? (·.2.toList.isPrefixOf (c :: rest)) = none := by
    rw [List.find?_eq_none]
    intro entry he hp
    obtain ⟨name, hname, -⟩ := entity_eq he
    rw [List.isPrefixOf_iff_prefix, hname] at hp
    exact h (List.cons_prefix_cons.mp hp).1.symm
  rw [decode, hnone]

/-! ## Tables -/

section Table

variable {table : List (Char × String)} (hamp : ('&', "&amp;") ∈ table)
include hamp

/-- A character is replaced by an entity of its own, or stays as it is and has none. -/
theorem code_cases (c : Char) : (∃ entity, (c, entity) ∈ table ∧ code table c = entity.toList)
    ∨ (code table c = [c] ∧ c ≠ '&' ∧ ∀ entry ∈ table, entry.1 ≠ c) := by
  unfold code
  cases hf : table.find? (·.1 == c) with
  | some entry =>
    obtain ⟨d, entity⟩ := entry
    obtain rfl : d = c := by simpa using List.find?_some hf
    exact .inl ⟨entity, List.mem_of_find?_eq_some hf, rfl⟩
  | none =>
    have hno : ∀ entry ∈ table, entry.1 ≠ c := by simpa [List.find?_eq_none] using hf
    exact .inr ⟨rfl, (hno _ hamp).symm, hno⟩

variable (hsub : table ⊆ attributeEntities)
include hsub

theorem decode_substitute (text : List Char) : decode (substitute table text) = text := by
  induction text with
  | nil => rw [substitute, List.flatMap_nil, decode]
  | cons c text ih =>
    rw [substitute, List.flatMap_cons, ← substitute]
    obtain ⟨entity, he, hc⟩ | ⟨hc, hne, -⟩ := code_cases hamp c
    · rw [hc, decode_entity (hsub he), ih]
    · rw [hc, List.singleton_append, decode_cons hne, ih]

theorem not_mem_substitute {entry : Char × String} (he : entry ∈ table) (hne : entry.1 ≠ '&')
    (text : List Char) : entry.1 ∉ substitute table text := by
  intro hmem
  obtain ⟨c, -, hc⟩ := List.mem_flatMap.mp hmem
  obtain ⟨entity, hentity, hcode⟩ | ⟨hcode, -, hno⟩ := code_cases hamp c
  · obtain ⟨name, hname, hnot⟩ := entity_eq (hsub hentity)
    rw [hcode, hname, List.mem_cons] at hc
    exact hc.elim hne (hnot entry (hsub he))
  · rw [hcode, List.mem_singleton] at hc
    exact hno entry he hc

omit hamp hsub in
/-- What starts with a character stands behind all that does not hold it. -/
theorem suffix_of_suffix_append {c : Char} {text behind rest : List Char} (h : c ∉ text)
    (hs : c :: rest <:+ text ++ behind) : c :: rest <:+ behind := by
  induction text with
  | nil => exact hs
  | cons d text ih =>
    rw [List.mem_cons, not_or] at h
    rw [List.cons_append, List.suffix_cons_iff] at hs
    obtain he | hs := hs
    · exact absurd (List.cons.inj he).1 h.1
    · exact ih h.2 hs

theorem entity_of_ampersand {text rest : List Char}
    (h : '&' :: rest <:+ substitute table text) :
    ∃ entry ∈ table, entry.2.toList <+: '&' :: rest := by
  induction text with
  | nil => cases List.suffix_nil.mp h
  | cons c text ih =>
    rw [substitute, List.flatMap_cons, ← substitute] at h
    obtain ⟨entity, he, hc⟩ | ⟨hc, hne, -⟩ := code_cases hamp c
    · obtain ⟨name, hname, hnot⟩ := entity_eq (hsub he)
      rw [hc, hname, List.cons_append, List.suffix_cons_iff] at h
      obtain hhead | hbehind := h
      · exact ⟨_, he, by rw [hname, hhead]; exact List.prefix_append ('&' :: name) _⟩
      · exact ih (suffix_of_suffix_append (hnot _ (hsub hamp)) hbehind)
    · rw [hc] at h
      exact ih (suffix_of_suffix_append (by simpa using hne.symm) h)

theorem reversible_of_eq {escape : List Char → List Char}
    (h : ∀ text, escape text = substitute table text) : Reversible escape table where
  one_pass := h
  append text behind := by simp only [h, substitute, List.flatMap_append]
  absent text entry he hne := by
    rw [h]
    exact not_mem_substitute hamp hsub he hne text
  ampersand text rest hs := by
    rw [h] at hs
    exact entity_of_ampersand hamp hsub hs
  decode text := by rw [h, decode_substitute hamp hsub]
  injective := by
    refine Function.LeftInverse.injective (g := Escape.decode) fun text => ?_
    rw [h, decode_substitute hamp hsub]

end Table

theorem reversible_escapeText : Reversible escapeText textEntities :=
  reversible_of_eq (by decide) (by decide) escapeText_eq

theorem reversible_escapeAttribute : Reversible escapeAttribute attributeEntities :=
  reversible_of_eq (by decide) (by decide) escapeAttribute_eq

end Escape

/-! ## Concatenated values -/

namespace Render

variable {r : Rendering} {scope : Bindings}

theorem leaves_formatted (hd : r.evaluator.language.Discreet r.sink) (e : Expression)
    (scope : Bindings) : Leaves r.sink (formatted r e scope) := by
  have h : Shows r.sink (fun _ => true) (formatted r e scope) [] :=
    ((Evaluator.shows_evaluate hd _ _).bind fun v => Evaluator.shows_format hd v _).mapFailure
  intro s a ho
  obtain ⟨t, ht, hnone⟩ := h s a ho
  rw [List.filter_true, String.toList_eq_nil_iff] at hnone
  rw [ht, hnone, String.append_empty]

theorem attributeText_append (text behind : String) :
    attributeText (text ++ behind) = attributeText text ++ attributeText behind := by
  simp only [attributeText, String.toList_append, Escape.reversible_escapeAttribute.append,
    String.ofList_append]

/-- The texts of parts, each of which is written, escaped as in an attribute, before the next one is
formatted. -/
def writtenParts (r : Rendering) (scope : Bindings) (parts : List Part) : Action (List String) :=
  parts.mapM fun part => do
    let text ← partText r scope part
    write r (attributeText text)
    return text

theorem writtenParts_cons (part : Part) (parts : List Part) :
    writtenParts r scope (part :: parts) = (do
      let text ← partText r scope part
      write r (attributeText text)
      let texts ← writtenParts r scope parts
      return text :: texts) := by
  rw [writtenParts, List.mapM_cons]
  simp only [bind_assoc, pure_bind]
  rfl

theorem concatenated_eq {parts : List Part} (h : ∀ part ∈ parts, part.WellFormed .attr) :
    concatenated r scope (parts.map .ofPart)
      = writtenParts r scope parts >>= fun _ => pure () := by
  induction parts with
  | nil => rfl
  | cons part parts ih =>
    obtain ⟨hpart, h⟩ := List.forall_mem_cons.mp h
    rw [List.map_cons, concatenated, ih h, writtenParts_cons]
    cases hpart with
    | literal text => simp [AttributeValue.ofPart, attributeValue, partText]
    | expression hc =>
      simp [AttributeValue.ofPart, attributeValue, expression, partText, escaped, escape?, hc,
        attributeText]

theorem leaves_partText (hd : r.evaluator.language.Discreet r.sink) (part : Part) :
    Leaves r.sink (partText r scope part) := by
  cases part with
  | literal text => exact fun s a _ => rfl
  | expression e => exact leaves_formatted hd e scope
  | unsupported kind lacking => exact fun s a h => nomatch h

/-- Parts of which none writes by itself are escaped as their texts put together are. -/
theorem output_writtenParts (hd : r.evaluator.language.Discreet r.sink) {parts : List Part}
    {s : Store} {texts : List String} (h : (writtenParts r scope parts s).outcome = .ok texts) :
    (writtenParts r scope parts s).store.output r.sink
      = s.output r.sink ++ attributeText (String.join texts) := by
  induction parts generalizing s texts with
  | nil =>
    cases h
    exact String.append_empty.symm
  | cons part parts ih =>
    rw [writtenParts_cons] at h ⊢
    obtain ⟨text, htext, h, hs⟩ := bind_eq_ok h
    obtain ⟨⟨⟩, -, h, hs₁⟩ := bind_eq_ok h
    obtain ⟨texts, htexts, h, hs₂⟩ := bind_eq_ok h
    cases h
    rw [hs, hs₁, hs₂]
    have hwritten := (partText r scope part s).store.output_append_self r.sink (attributeText text)
    rw [leaves_partText hd part s text htext] at hwritten
    calc
      _ = _ := ih htexts
      _ = s.output r.sink ++ attributeText text ++ attributeText (String.join texts) :=
        congrArg (· ++ _) hwritten
      _ = s.output r.sink ++ attributeText (String.join (text :: texts)) := by
        rw [String.append_assoc, ← attributeText_append, String.join_cons]

theorem refines_writtenParts (parts : List Part) :
    Refines (writtenParts r.sealed scope parts) (writtenParts r scope parts) := by
  induction parts with
  | nil => exact .refl _
  | cons part parts ih =>
    have hpart : Refines (partText r.sealed scope part) (partText r scope part) := by
      cases part with
      | expression e => exact refines_formatted e scope
      | literal text | unsupported kind lacking => exact .refl _
    rw [writtenParts_cons, writtenParts_cons]
    exact hpart.bind fun _ => (Refines.refl _).bind fun _ => ih.bind fun _ => .refl _

/-- A concatenated value adds to the output the texts of its parts put together and escaped as one,
unless a part writes by itself. -/
theorem output_concat {parts : List Part} (h : ∀ part ∈ parts, part.WellFormed .attr) {s : Store}
    {texts : List String} (hs : (writtenParts r.sealed scope parts s).outcome = .ok texts) :
    let run := attributeValue r scope (.concat (parts.map .ofPart)) s
    run.outcome = .ok ()
      ∧ run.store.output r.sink = s.output r.sink ++ attributeText (String.join texts) := by
  have hout := output_writtenParts (r.evaluator.language.discreet_sealed r.sink) hs
  obtain ⟨hrun, hstore⟩ := refines_writtenParts parts s texts hs
  obtain ⟨ho, hbind⟩ := bind_of_ok (f := fun _ => pure ()) hrun
  rw [attributeValue, concatenated_eq h]
  rw [← hstore] at hout
  exact ⟨ho, (congrArg (Store.output · r.sink) hbind).trans hout⟩

end Render

open Escape Render in
/-- Replacing one character after the other in a whole text is replacing every character by itself;
it can be undone, and goes over a text part by part. The parts of a concatenated value are formatted
and written, each escaped, one after the other; if none of them writes by itself, the output grows
by their texts put together and escaped as one. -/
theorem escapes_reversible :
    Reversible escapeText textEntities ∧ Reversible escapeAttribute attributeEntities
      ∧ ∀ (r : Rendering) (scope : Bindings) (parts : List Part),
        (∀ part ∈ parts, part.WellFormed .attr) →
        let value := attributeValue r scope (.concat (parts.map .ofPart))
        value = (writtenParts r scope parts >>= fun _ => pure ())
          ∧ ∀ (s : Store) (texts : List String),
            (writtenParts r.sealed scope parts s).outcome = .ok texts →
            (value s).outcome = .ok () ∧ (value s).store.output r.sink
              = s.output r.sink ++ attributeText (String.join texts) := by
  refine ⟨reversible_escapeText, reversible_escapeAttribute, fun r scope parts hparts => ⟨?_, ?_⟩⟩
  · rw [attributeValue, concatenated_eq hparts]
  · exact fun s texts h => output_concat hparts h

/-- A group with an entity in the text of an expression. -/
theorem escapes_reversible_group :
    (∀ part ∈ [.literal "a<", .expression ⟨"x", none, .attr, 0⟩], Part.WellFormed .attr part)
      ∧ (Render.writtenParts (Rendering.sealed ⟨⟨Host.language 4, []⟩, 0, []⟩)
          [("x", .str "'&lt;")] [.literal "a<", .expression ⟨"x", none, .attr, 0⟩]
          Store.empty).outcome = .ok ["a<", "'&lt;"]
      ∧ (Render.attributeValue ⟨⟨Host.language 4, []⟩, 0, []⟩ [("x", .str "'&lt;")]
          (.concat [.literal "a<", .expression ⟨"x", none, .attr, 0⟩]) Store.empty).store.output 0
        = "a&lt;&apos;&amp;lt;"
      ∧ Escape.decode (Escape.escapeAttribute "a<'&lt;".toList) = "a<'&lt;".toList := by
  have hparts : ∀ part ∈ [.literal "a<", .expression ⟨"x", none, .attr, 0⟩],
      Part.WellFormed .attr part :=
    List.forall_mem_cons.mpr ⟨.literal _, List.forall_mem_singleton.mpr (.expression rfl)⟩
  have hrun : (Render.writtenParts (Rendering.sealed ⟨⟨Host.language 4, []⟩, 0, []⟩)
      [("x", .str "'&lt;")] [.literal "a<", .expression ⟨"x", none, .attr, 0⟩]
      Store.empty).outcome = .ok ["a<", "'&lt;"] := by cbv
  obtain ⟨-, hattr, hgroup⟩ := escapes_reversible
  refine ⟨hparts, hrun, ((hgroup _ _ _ hparts).2 _ _ hrun).2.trans ?_, hattr.decode _⟩
  cbv

end MarkupTemplate
