import MarkupTemplate.Host.Run
import MarkupTemplate.Proofs.Payload

/-!
# Character data

A section of character data ends at the first terminator in it, so a payload that holds a terminator
cannot stand in one section. It is written as several that follow each other directly, cut inside
each of its terminators; what they hold, put together, is the payload again.

* `CharacterData.read?`: what sections that follow each other directly hold.
* `CharacterData.readOn?_escapeCdata`: an escaped payload is read back, whatever stands in it.
* `CharacterData.occurrences_escapeCdata`: escaping adds no terminator.
* `cdata_reads_back`: what a node of character data writes holds the texts of its parts.
-/
namespace MarkupTemplate

open Escape
open Text (occurrences)

namespace CharacterData

/-- What opens a section. -/
def opening : List Char := ['<', '!', '[', 'C', 'D', 'A', 'T', 'A', '[']

/-- What ends a section. -/
def terminator : List Char := [']', ']', '>']

/-- Reads from inside a section: up to the first terminator and, if another section opens directly
behind it, on inside that one. Answers what the sections hold and what stands behind the last;
`none` if a section does not end. -/
def readOn? : List Char → Option (List Char × List Char)
  | [] => none
  | c :: rest =>
    if terminator.isPrefixOf (c :: rest) then
      let behind := rest.drop 2
      if opening.isPrefixOf behind then readOn? (behind.drop opening.length) else some ([], behind)
    else (readOn? rest).map fun (content, behind) => (c :: content, behind)
termination_by text => text.length
decreasing_by
  · simp only [List.length_drop, List.length_cons]
    omega
  · exact Nat.lt_succ_self _

/-- Reads the sections that a text starts with. -/
def read? (text : List Char) : Option (List Char × List Char) :=
  if opening.isPrefixOf text then readOn? (text.drop opening.length) else none

theorem read?_opening (text : List Char) : read? (opening ++ text) = readOn? text := by
  rw [read?, if_pos (List.isPrefixOf_iff_prefix.mpr (List.prefix_append _ _)), List.drop_left]

theorem readOn?_terminator (text : List Char) :
    readOn? (terminator ++ text)
      = if opening.isPrefixOf text then readOn? (text.drop opening.length)
        else some ([], text) := by
  rw [terminator, List.cons_append, readOn?]
  rfl

theorem readOn?_cons {c : Char} {text : List Char} (h : ¬ terminator <+: c :: text) :
    readOn? (c :: text)
      = (readOn? text).map fun (content, behind) => (c :: content, behind) := by
  rw [readOn?, if_neg (mt List.isPrefixOf_iff_prefix.mp h)]

/-! ## Escaped payloads -/

theorem escapeCdata_nil : escapeCdata [] = [] := rfl

theorem escapeCdata_terminator (text : List Char) : escapeCdata (terminator ++ text)
    = ']' :: ']' :: (terminator ++ (opening ++ '>' :: escapeCdata text)) := rfl

theorem escapeCdata_cons {c : Char} {text : List Char} (h : ¬ terminator <+: c :: text) :
    escapeCdata (c :: text) = c :: escapeCdata text := by
  rw [escapeCdata.eq_def]
  split
  · next he => cases he
  · next he =>
    rw [he] at h
    exact absurd ⟨_, rfl⟩ h
  · next he =>
    obtain ⟨rfl, rfl⟩ := List.cons.inj he
    rfl

theorem head?_escapeCdata (text : List Char) : (escapeCdata text).head? = text.head? := by
  induction text using Text.word_induction terminator (by decide) with
  | nil => rfl
  | step text => rfl
  | cons c text h => rw [escapeCdata_cons h, List.head?_cons, List.head?_cons]

/-- A character that starts no terminator in the payload starts none in the section. -/
theorem not_terminator_escapeCdata {c : Char} {text : List Char} (h : ¬ terminator <+: c :: text)
    (behind : List Char) : ¬ terminator <+: c :: (escapeCdata text ++ (terminator ++ behind)) := by
  intro hp
  obtain ⟨rfl, u, hu⟩ := List.cons_prefix_cons.mp hp
  clear hp
  -- the character behind a bracket that is written is the one behind it in the payload
  induction text using Text.word_induction terminator (by decide) with
  | nil => simp [escapeCdata_nil, terminator] at hu
  | step text => simp [escapeCdata_terminator] at hu
  | cons d text hd =>
    rw [escapeCdata_cons hd] at hu
    obtain ⟨rfl, hu₁⟩ := List.cons.inj hu
    have hhead : some '>' = (escapeCdata text ++ (terminator ++ behind)).head? :=
      congrArg List.head? hu₁
    rw [List.head?_append, head?_escapeCdata] at hhead
    cases text with
    | nil => simp [terminator] at hhead
    | cons e text =>
      obtain rfl : '>' = e := by simpa using hhead
      exact h ⟨text, rfl⟩

/-- Sections that hold an escaped payload are read back, whatever else stands behind them. -/
theorem readOn?_escapeCdata (text : List Char) {behind : List Char} (h : ¬ opening <+: behind) :
    readOn? (escapeCdata text ++ (terminator ++ behind)) = some (text, behind) := by
  induction text using Text.word_induction terminator (by decide) with
  | nil =>
    rw [escapeCdata_nil, List.nil_append, readOn?_terminator,
      if_neg (mt List.isPrefixOf_iff_prefix.mp h)]
  | step text ih =>
    have hopens : opening.isPrefixOf
        (opening ++ '>' :: (escapeCdata text ++ (terminator ++ behind))) = true :=
      List.isPrefixOf_iff_prefix.mpr (List.prefix_append _ _)
    simp only [escapeCdata_terminator, List.cons_append, List.append_assoc]
    rw [readOn?_cons (by simp [terminator]), readOn?_cons (by simp [terminator]),
      readOn?_terminator, if_pos hopens, List.drop_left, readOn?_cons (by simp [terminator]), ih]
    rfl
  | cons c text hc ih =>
    rw [escapeCdata_cons hc, List.cons_append,
      readOn?_cons (not_terminator_escapeCdata hc behind), ih]
    rfl

/-- The sections end as often as the payload holds a terminator, and once more. -/
theorem occurrences_escapeCdata (text : List Char) :
    occurrences terminator (escapeCdata text ++ terminator) = occurrences terminator text + 1 := by
  induction text using Text.word_induction terminator (by decide) with
  | nil => decide
  | step text ih =>
    rw [escapeCdata_terminator]
    simp only [terminator, opening, List.cons_append, List.nil_append] at ih ⊢
    simp [ih]
  | cons c text hc ih =>
    have hp := not_terminator_escapeCdata hc []
    rw [List.append_nil] at hp
    rw [escapeCdata_cons hc, List.cons_append, Text.occurrences_cons, Text.occurrences_cons, ih,
      if_neg (mt List.isPrefixOf_iff_prefix.mp hc), if_neg (mt List.isPrefixOf_iff_prefix.mp hp)]

/-- An escaped payload as it is written. -/
theorem toList_section (text : List Char) :
    ("<![CDATA[" ++ String.ofList (escapeCdata text) ++ "]]>").toList
      = opening ++ (escapeCdata text ++ terminator) := by
  simp [opening, terminator]

theorem occurrences_section (text : List Char) :
    occurrences terminator (opening ++ (escapeCdata text ++ terminator))
      = occurrences terminator text + 1 := by
  rw [← occurrences_escapeCdata]
  simp [opening, terminator]

end CharacterData

open CharacterData in
/-- Character data is written as one text, once its parts are formatted: sections that follow each
other directly and hold, put together, the texts of the parts, whatever stands in them and wherever
they meet. It ends as many sections as those texts hold terminators, and one more. If a part fails,
nothing is written. -/
theorem cdata_reads_back (r : Rendering) (scope : Bindings) (parts : List Part) (s : Store) :
    let formatting := Render.partTexts r scope parts s
    let run := Render.node r scope (.cdata parts) s
    (∀ texts, formatting.outcome = .ok texts → ∃ t : String,
        run.outcome = .ok scope ∧ run.store = formatting.store.append r.sink t
          ∧ opening <+: t.toList ∧ terminator <:+ t.toList
          ∧ read? t.toList = some ((String.join texts).toList, [])
          ∧ occurrences terminator t.toList
            = occurrences terminator (String.join texts).toList + 1)
      ∧ ∀ e, formatting.outcome = .error e →
        run.outcome = .error e ∧ run.store = formatting.store := by
  obtain ⟨hok, herror⟩ := Render.run_payload r scope parts (.cdata parts)
    (fun text => "<![CDATA[" ++ String.ofList (escapeCdata text.toList) ++ "]]>")
    (by rw [Render.node]) s
  refine ⟨fun texts h => ⟨_, (hok texts h).1, (hok texts h).2, ?_⟩, herror⟩
  rw [toList_section]
  refine ⟨List.prefix_append _ _, ⟨_, List.append_assoc _ _ _⟩, ?_, occurrences_section _⟩
  have hread := readOn?_escapeCdata (String.join texts).toList
    (show ¬ opening <+: [] by simp [opening])
  rwa [List.append_nil, ← read?_opening] at hread

/-- A terminator that stands across two parts, and a part that fails behind half of one. -/
theorem cdata_reads_back_across :
    (Render.partTexts ⟨⟨Host.language 4, []⟩, 0, []⟩ [("x", .str ">]")]
        [.literal "]]", .expression ⟨"x", none, .cdata, 0⟩] Store.empty).outcome
        = .ok ["]]", ">]"]
      ∧ (∃ t : String, (Render.node ⟨⟨Host.language 4, []⟩, 0, []⟩ [("x", .str ">]")]
          (.cdata [.literal "]]", .expression ⟨"x", none, .cdata, 0⟩]) Store.empty).outcome
          = .ok [("x", .str ">]")]
        ∧ CharacterData.read? t.toList = some ("]]>]".toList, []))
      ∧ ∃ e, (Render.partTexts ⟨⟨Host.language 4, []⟩, 0, []⟩ []
          [.literal "]]", .expression ⟨"x", none, .cdata, 0⟩] Store.empty).outcome = .error e
        ∧ (Render.node ⟨⟨Host.language 4, []⟩, 0, []⟩ []
          (.cdata [.literal "]]", .expression ⟨"x", none, .cdata, 0⟩]) Store.empty).outcome
          = .error e := by
  have h : (Render.partTexts ⟨⟨Host.language 4, []⟩, 0, []⟩ [("x", .str ">]")]
      [.literal "]]", .expression ⟨"x", none, .cdata, 0⟩] Store.empty).outcome
      = .ok ["]]", ">]"] := by cbv
  have hfails : (Render.partTexts ⟨⟨Host.language 4, []⟩, 0, []⟩ []
      [.literal "]]", .expression ⟨"x", none, .cdata, 0⟩] Store.empty).outcome
      = .error (.template ⟨.evaluation,
        "Failed to evaluate expression 'x': NameError: name 'x' is not defined", none⟩) := by cbv
  obtain ⟨t, ho, -, -, -, hread, -⟩ := (cdata_reads_back _ _ _ _).1 _ h
  exact ⟨h, ⟨t, ho, hread⟩, _, hfails, ((cdata_reads_back _ _ _ _).2 _ hfails).1⟩

end MarkupTemplate
