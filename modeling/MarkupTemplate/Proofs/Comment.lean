import MarkupTemplate.Host.Run
import MarkupTemplate.Proofs.Payload

/-!
# Comments

A comment may not hold two dashes side by side. What is written of its payload has every run of
dashes without the pairs in it: one dash of a run of odd length, none of an even one.

* `Escape.escapeComment_eq`: the runs of a payload and what is written of them.
* `Escape.not_pair_escapeComment`: no two dashes are left side by side.
* `comment_unpaired`: what a comment writes, and that it ends only at its end.
-/
namespace MarkupTemplate

open Text (occurrences)

namespace Escape

/-! ## One character and one pair -/

theorem escapeComment_pair (text : List Char) :
    escapeComment ('-' :: '-' :: text) = escapeComment text := rfl

theorem escapeComment_cons {c : Char} {text : List Char}
    (h : ¬ ['-', '-'] <+: c :: text) : escapeComment (c :: text) = c :: escapeComment text := by
  rw [escapeComment.eq_def]
  split
  · next he => cases he
  · next he =>
    rw [he] at h
    exact absurd ⟨_, rfl⟩ h
  · next he =>
    obtain ⟨rfl, rfl⟩ := List.cons.inj he
    rfl

/-! ## Pairs -/

/-- No two dashes are left side by side. -/
theorem not_pair_escapeComment (text : List Char) : ¬ ['-', '-'] <:+: escapeComment text := by
  induction text using Text.word_induction ['-', '-'] (by decide) with
  | nil => decide
  | step text ih => exact ih
  | cons c text h ih =>
    rw [escapeComment_cons h, List.infix_cons_iff]
    rintro (hp | hp)
    · -- a dash in front comes from a dash in front, so there was a pair
      obtain ⟨rfl, u, hu⟩ := List.cons_prefix_cons.mp hp
      cases text with
      | nil => cases hu
      | cons d text =>
        have hd : d ≠ '-' := by
          rintro rfl
          exact h ⟨text, rfl⟩
        rw [escapeComment_cons fun hpair => hd (List.cons_prefix_cons.mp hpair).1.symm] at hu
        exact hd (List.cons.inj hu).1.symm
    · exact ih hp

/-- A text without pairs of dashes stays as it is. -/
theorem escapeComment_of_not_pair {text : List Char} (h : ¬ ['-', '-'] <:+: text) :
    escapeComment text = text := by
  induction text with
  | nil => rfl
  | cons c text ih =>
    rw [List.infix_cons_iff, not_or] at h
    rw [escapeComment_cons h.1, ih h.2]

/-! ## Runs -/

/-- What is left of a run of equal characters without the pairs of dashes in it. -/
def unpaired (run : List Char) : List Char :=
  if run.head? = some '-' then List.replicate (run.length % 2) '-' else run

theorem escapeComment_replicate (n : Nat) {text : List Char} (h : text.head? ≠ some '-') :
    escapeComment (List.replicate n '-' ++ text)
      = List.replicate (n % 2) '-' ++ escapeComment text := by
  induction n using Nat.twoStepInduction with
  | zero => rfl
  | one =>
    refine escapeComment_cons ?_
    rintro hp
    obtain ⟨-, u, hu⟩ := List.cons_prefix_cons.mp hp
    exact h (congrArg List.head? hu.symm)
  | more n ih _ =>
    rw [List.replicate_succ, List.replicate_succ, List.cons_append, List.cons_append,
      escapeComment_pair, ih, Nat.add_mod_right]

theorem escapeComment_append {run text : List Char} (h : '-' ∉ run) :
    escapeComment (run ++ text) = run ++ escapeComment text := by
  induction run with
  | nil => rfl
  | cons c run ih =>
    rw [List.mem_cons, not_or] at h
    rw [List.cons_append, escapeComment_cons fun hp => h.1 (List.cons_prefix_cons.mp hp).1,
      ih h.2, List.cons_append]

/-- A run is not followed by its own character, where another run starts behind it. -/
theorem head?_flatten_ne {c : Char} {run : List Char} {runs : List (List Char)}
    (hlast : run.getLast? = some c) (hne : [] ∉ runs)
    (hnext : (run :: runs).IsChain fun run next => run.getLast? ≠ next.head?) :
    runs.flatten.head? ≠ some c := by
  cases runs with
  | nil => simp
  | cons next runs =>
    obtain ⟨hne', -⟩ := not_or.mp (mt List.mem_cons.mpr hne)
    obtain ⟨d, next, rfl⟩ := List.exists_cons_of_ne_nil (Ne.symm hne')
    have hd := (List.isChain_cons_cons.mp hnext).1
    rw [hlast] at hd
    simpa using hd.symm

theorem escapeComment_flatten {runs : List (List Char)} (hne : [] ∉ runs)
    (hruns : ∀ run ∈ runs, run.IsChain (· = ·))
    (hnext : runs.IsChain fun run next => run.getLast? ≠ next.head?) :
    escapeComment runs.flatten = runs.flatMap unpaired := by
  induction runs with
  | nil => rfl
  | cons run runs ih =>
    rw [List.mem_cons, not_or] at hne
    obtain ⟨hequal, hruns⟩ := List.forall_mem_cons.mp hruns
    rw [List.flatten_cons, List.flatMap_cons, ← ih hne.2 hruns hnext.tail]
    obtain ⟨c, run, rfl⟩ := List.exists_cons_of_ne_nil (Ne.symm hne.1)
    have hrun := List.isChain_cons_eq_iff_eq_replicate.mp hequal
    have hlast : (c :: run).getLast? = some c := by
      rw [hrun, ← List.replicate_succ, List.getLast?_replicate, if_neg (Nat.succ_ne_zero _)]
    have hhead := head?_flatten_ne hlast hne.2 hnext
    by_cases hc : c = '-'
    · subst hc
      rw [hrun, ← List.replicate_succ, escapeComment_replicate _ hhead]
      simp [unpaired, List.replicate_succ]
    · rw [escapeComment_append, unpaired, if_neg (by simpa using hc)]
      rw [hrun, ← List.replicate_succ, List.mem_replicate]
      exact fun h => hc h.2.symm

/-- Escaping takes the pairs of dashes out of every run of dashes, and changes nothing else. -/
theorem escapeComment_eq (text : List Char) :
    escapeComment text = (text.splitBy (· == ·)).flatMap unpaired := by
  have h := escapeComment_flatten (List.nil_notMem_splitBy (· == ·) text)
    (fun run hr => by simpa using List.isChain_of_mem_splitBy hr)
    ((List.isChain_getLast_head_splitBy (· == ·) text).imp ?_)
  · rwa [List.flatten_splitBy] at h
  · rintro run next ⟨hr, hn, hne⟩ he
    rw [List.getLast?_eq_some_getLast hr, List.head?_eq_some_head hn, Option.some.injEq] at he
    rw [he, beq_self_eq_true] at hne
    cases hne

/-! ## Written comments -/

/-- What ends a comment. -/
def commentEnd : List Char := ['-', '-', '>']

/-- Without pairs of dashes in it, a comment ends only at its end. -/
theorem occurrences_commentEnd {text : List Char} (h : ¬ ['-', '-'] <:+: text) :
    occurrences commentEnd (text ++ [' ', '-', '-', '>']) = 1 := by
  induction text with
  | nil => decide
  | cons c text ih =>
    rw [List.infix_cons_iff, not_or] at h
    rw [List.cons_append, Text.occurrences_cons, ih h.2, if_neg]
    rw [List.isPrefixOf_iff_prefix]
    intro hp
    obtain ⟨rfl, hp₁⟩ := List.cons_prefix_cons.mp hp
    cases text with
    | nil => simp at hp₁
    | cons d text =>
      rw [List.cons_append, List.cons_prefix_cons] at hp₁
      exact h.1 ⟨text, by rw [← hp₁.1]; rfl⟩

end Escape

open Escape in
/-- A comment is written as one text, once its parts are formatted. Between its signs stand the
texts of the parts, of which every run of dashes is left without its pairs, also where parts meet
in it; so no two dashes stand side by side, the comment ends only at its end, and escaping it again
changes nothing. If a part fails, nothing is written. -/
theorem comment_unpaired (r : Rendering) (scope : Bindings) (parts : List Part) (s : Store) :
    let formatting := Render.partTexts r scope parts s
    let run := Render.node r scope (.comment parts) s
    (∀ texts, formatting.outcome = .ok texts → ∃ p : String,
        run.outcome = .ok scope
          ∧ run.store = formatting.store.append r.sink ("<!-- " ++ p ++ " -->")
          ∧ p.toList = escapeComment (String.join texts).toList
          ∧ p.toList = ((String.join texts).toList.splitBy (· == ·)).flatMap unpaired
          ∧ ¬ ['-', '-'] <:+: p.toList ∧ escapeComment p.toList = p.toList
          ∧ occurrences commentEnd ("<!-- " ++ p ++ " -->").toList = 1
          ∧ commentEnd <:+ ("<!-- " ++ p ++ " -->").toList)
      ∧ ∀ e, formatting.outcome = .error e →
        run.outcome = .error e ∧ run.store = formatting.store := by
  obtain ⟨hok, herror⟩ := Render.run_payload r scope parts (.comment parts)
    (fun text => "<!-- " ++ String.ofList (escapeComment text.toList) ++ " -->")
    (by rw [Render.node]) s
  refine ⟨fun texts h => ⟨String.ofList (escapeComment (String.join texts).toList),
    (hok texts h).1, (hok texts h).2, ?_⟩, herror⟩
  have hpair := not_pair_escapeComment (String.join texts).toList
  have htext : ("<!-- " ++ String.ofList (escapeComment (String.join texts).toList)
      ++ " -->").toList = ['<', '!', '-', '-', ' ']
        ++ (escapeComment (String.join texts).toList ++ [' ', '-', '-', '>']) := by simp
  rw [htext, String.toList_ofList]
  refine ⟨rfl, escapeComment_eq _, hpair, escapeComment_of_not_pair hpair, ?_, ?_⟩
  · simp only [List.cons_append, List.nil_append, Text.occurrences_cons,
      occurrences_commentEnd hpair]
    simp [commentEnd]
  · exact ⟨['<', '!', '-', '-', ' '] ++ (escapeComment (String.join texts).toList ++ [' ']),
      by simp [commentEnd]⟩

/-- Three dashes that stand across two parts and one before the end, and a part that fails behind a
dash. -/
theorem comment_unpaired_across :
    (Render.partTexts ⟨⟨Host.language 4, []⟩, 0, []⟩ [("x", .str "--b-")]
        [.literal "a-", .expression ⟨"x", none, .comment, 0⟩] Store.empty).outcome
        = .ok ["a-", "--b-"]
      ∧ (∃ p : String, (Render.node ⟨⟨Host.language 4, []⟩, 0, []⟩ [("x", .str "--b-")]
          (.comment [.literal "a-", .expression ⟨"x", none, .comment, 0⟩]) Store.empty).outcome
          = .ok [("x", .str "--b-")]
        ∧ p.toList = "a-b-".toList
        ∧ Text.occurrences Escape.commentEnd ("<!-- " ++ p ++ " -->").toList = 1)
      ∧ ∃ e, (Render.partTexts ⟨⟨Host.language 4, []⟩, 0, []⟩ []
          [.literal "a-", .expression ⟨"x", none, .comment, 0⟩] Store.empty).outcome = .error e
        ∧ (Render.node ⟨⟨Host.language 4, []⟩, 0, []⟩ []
          (.comment [.literal "a-", .expression ⟨"x", none, .comment, 0⟩]) Store.empty).outcome
          = .error e := by
  have h : (Render.partTexts ⟨⟨Host.language 4, []⟩, 0, []⟩ [("x", .str "--b-")]
      [.literal "a-", .expression ⟨"x", none, .comment, 0⟩] Store.empty).outcome
      = .ok ["a-", "--b-"] := by cbv
  have hfails : (Render.partTexts ⟨⟨Host.language 4, []⟩, 0, []⟩ []
      [.literal "a-", .expression ⟨"x", none, .comment, 0⟩] Store.empty).outcome
      = .error (.template ⟨.evaluation,
        "Failed to evaluate expression 'x': NameError: name 'x' is not defined", none⟩) := by cbv
  obtain ⟨p, ho, -, -, hp, -, -, hend, -⟩ := (comment_unpaired _ _ _ _).1 _ h
  exact ⟨h, ⟨p, ho, by rw [hp]; cbv, hend⟩, _, hfails, ((comment_unpaired _ _ _ _).2 _ hfails).1⟩

end MarkupTemplate
