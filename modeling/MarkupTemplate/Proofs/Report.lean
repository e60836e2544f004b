import MarkupTemplate.Proofs.CommandLine
import MarkupTemplate.Proofs.Message

/-!
# What a run reports of a template

The errors of a template are reported on one line, after the name of its file. Only a template error
leads to such a report, and template errors come from the template alone: whatever is wrong with a
file or with a variable is an error of the host.

* `Invocation.Fails`: a failure of the template, when it is read or when it is rendered.
* `Invocation.perform_error`: the failures of a run.
* `Invocation.Misnames`: a start tag without an end whose name has a line feed.
* `reported_on_one_line`: what is reported of a template error.
* `not_on_one_line`: the report about a tag whose name has a line feed.
-/

namespace MarkupTemplate.CommandLine

open MarkupTemplate.Action MarkupTemplate.Text

variable {refused : Access → Path → Option FileFault} {t t' : FileTree} {language : Language}

namespace Invocation

variable {i : Invocation} {f : Failure}

/-! ## Failures of a run -/

/-- What a run has when it begins to render: the document of its file, and the variables of the
other file and of the items. -/
inductive Begins (refused : Access → Path → Option FileFault) (i : Invocation) (t : FileTree)
    (document : Document) (scope : Bindings) (store : Store) : Prop
  | intro (source : List Char) (members sets : Variables)
      (held : t.Holds refused (Path.ofText i.template) source)
      (parsed : Document.ofText? source = .ok document)
      (file : Variables.InFile t refused i.variablesFile members)
      (items : List.Forall₂ Variables.Sets i.items sets)
      (binds : Variables.Binds members sets scope store) :
      Begins refused i t document scope store

/-- A failure of the template: of its text, or of its rendering. -/
inductive Fails (refused : Access → Path → Option FileFault) (language : Language)
    (i : Invocation) (t : FileTree) (f : Failure) : Prop
  | parsing (source : List Char) (held : t.Holds refused (Path.ofText i.template) source)
      (malformed : Document.ofText? source = .error f) : Fails refused language i t f
  | rendering (document : Document) (scope : Bindings) (store : Store)
      (begins : Begins refused i t document scope store)
      (broken : (Render.document ⟨language, []⟩ store.sinks document scope store.addSink).outcome
        = .error f) : Fails refused language i t f

/-- The call at which the rendering of a run breaks off. -/
def BreaksOff (refused : Access → Path → Option FileFault) (language : Language) (i : Invocation)
    (t : FileTree) (b : Script.Break) : Prop :=
  ∃ document scope store, Begins refused i t document scope store
    ∧ Render.break? ⟨language, []⟩ store.sinks document scope store.addSink = some b

/-- The text of the template has a start tag without an end, and the name of the tag, read from a
literal, has a line feed. -/
def Misnames (refused : Access → Path → Option FileFault) (i : Invocation) (t : FileTree) : Prop :=
  ∃ source name pos, t.Holds refused (Path.ofText i.template) source
    ∧ Document.ofText? source
      = .error (.template (Fault.toError source ⟨.unterminatedTag name, pos⟩))
    ∧ ¬ OneLine name

theorem noting_error {α : Type} {x : ExceptT Failure (StateM FileTree) α} {notes : List String}
    {s : Stop} (h : runFrom t (noting notes x) = (.error s, t')) :
    runFrom t x = (.error s.failure, t') := by
  rw [runFrom_noting] at h
  rcases hx : runFrom t x with ⟨e | a, t₁⟩ <;> rw [hx] at h <;> cases h
  rfl

theorem render_error {template : Template} {scope : Bindings} {store : Store}
    (h : (template.render scope store).outcome = .error f) :
    (Render.document template.evaluator store.sinks template.document scope store.addSink).outcome
      = .error f := by
  rw [Template.render, (bind_of_ok (x := Action.addSink) rfl).1] at h
  rcases bind_eq_error h with h | ⟨_, -, h⟩
  · exact h
  · cases h

theorem ofExcept_error {α : Type} {r : Except Failure α}
    (h : runFrom t (ofExcept r : ExceptT Failure (StateM FileTree) α) = (.error f, t')) :
    r = .error f :=
  (Prod.mk.inj h).1

theorem ofText?_eq_error {evaluator : Evaluator} {name : String} {source : List Char}
    (h : Template.ofText? evaluator name (String.ofList source) = .error f) :
    Document.ofText? source = .error f := by
  unfold Template.ofText? at h
  rw [String.toList_ofList] at h
  cases hd : Document.ofText? source with
  | ok document =>
    rw [hd] at h
    cases h
  | error e =>
    rw [hd] at h
    cases h
    rfl

/-- A run does not go on behind a malformed text. -/
theorem perform_of_malformed {source : List Char}
    (held : t.Holds refused (Path.ofText i.template) source)
    (h : Document.ofText? source = .error f) :
    runFrom t (i.perform (FileTree.refusing refused) language) = (.error ⟨[], f⟩, t) := by
  have hmade : Template.ofText? ⟨language, []⟩ (Path.ofText i.template).text (String.ofList source)
      = .error f := by
    rw [Template.ofText?, String.toList_ofList, h]
    rfl
  rw [perform, runFrom_bind_of_ok (noting_ok.mpr (FileTree.readText_ok.mpr ⟨rfl, held⟩)),
    runFrom_bind, runFrom_noting, hmade]
  rfl

theorem rendered_eq_error {template : Template} {members sets : Variables}
    (h : rendered template (sets.reverse ++ members) = .error f) :
    ∃ scope store, Variables.Binds members sets scope store
      ∧ (template.render scope store).outcome = .error f := by
  unfold rendered at h
  obtain ⟨scope, hb⟩ := Variables.exists_bindings (sets.reverse ++ members) Store.empty
  rw [(bind_of_ok hb).1] at h
  exact ⟨scope, _, Variables.binds_of_bindings hb, h⟩

theorem deliver_error {text : String}
    (h : runFrom t (i.deliver (FileTree.refusing refused) text) = (.error f, t')) :
    ∃ e, f = .host e := by
  unfold deliver at h
  split at h
  · cases h
  · rcases runFrom_bind_error.mp h with h | ⟨_, _, -, h⟩
    · exact FileTree.writeText_error h
    · cases h

/-- A run that fails meets an error of the host, or its template fails. -/
theorem perform_error {s : Stop}
    (h : runFrom t (i.perform (FileTree.refusing refused) language) = (.error s, t')) :
    (∃ e, s.failure = .host e) ∨ Fails refused language i t s.failure := by
  rw [perform, runFrom_bind_error] at h
  obtain h | ⟨source, t₁, hs, h⟩ := h
  · exact .inl (FileTree.readText_error (noting_error h))
  obtain ⟨rfl, held⟩ := FileTree.readText_ok.mp (noting_ok.mp hs)
  rw [runFrom_bind_error] at h
  obtain h | ⟨template, t₂, ht, h⟩ := h
  · exact .inr (.parsing source held (ofText?_eq_error (ofExcept_error (noting_error h))))
  obtain ⟨made, rfl⟩ := ofExcept_ok.mp (noting_ok.mp ht)
  obtain ⟨document, parsed, rfl⟩ := (ofText?_eq_ok _ _).mp made
  rw [runFrom_bind_error] at h
  obtain h | ⟨_, t₃, hv, h⟩ := h
  · exact .inl (Variables.load_error (noting_error h))
  obtain ⟨rfl, members, sets, file, items, rfl⟩ := Variables.load_ok.mp (noting_ok.mp hv)
  rw [runFrom_bind_error] at h
  obtain h | ⟨text, t₄, hr, h⟩ := h
  · obtain ⟨scope, store, binds, h⟩ := rendered_eq_error (ofExcept_error (noting_error h))
    have begins := Begins.intro source members sets held parsed file items binds
    exact .inr (.rendering document scope store begins (render_error h))
  obtain ⟨-, rfl⟩ := ofExcept_ok.mp (noting_ok.mp hr)
  rw [runFrom_bind_error] at h
  obtain h | ⟨output, t₅, -, h⟩ := h
  · exact .inl (deliver_error (noting_error h))
  · cases h

/-! ## One line -/

/-- What is written of the message, which has no blanks at its end. -/
theorem trimRight_concat {c : Char} (s : List Char) (hc : isBlank c = false) :
    trimRight (s ++ [c]) = s ++ [c] := by
  rw [trimRight, List.reverse_concat, List.dropWhile_cons_of_neg (by simp [hc]),
    ← List.reverse_concat, List.reverse_reverse]

/-- The name of a tag without an end is told as it is. -/
theorem mem_trimRight_misnamed {source : List Char} {name : String} {pos : Nat}
    (h : ¬ OneLine name) :
    '\n' ∈ trimRight (Fault.toError source ⟨.unterminatedTag name, pos⟩).message.toList := by
  obtain ⟨place, hplace⟩ : ∃ place, (Location.describe source pos).toList = place ++ [')'] :=
    ⟨_, String.toList_append⟩
  have hmessage : (Fault.toError source ⟨.unterminatedTag name, pos⟩).message
      = "Unterminated tag <" ++ name ++ Location.describe source pos := rfl
  rw [hmessage, String.toList_append, hplace, ← List.append_assoc,
    trimRight_concat _ (by decide), String.toList_append]
  simp [not_not.mp h]

/-- The message about a failing template is on one line, if what the host says is, unless it is
about a start tag without an end whose name has a line feed. -/
theorem Fails.oneLine {e : TemplateError} (h : Fails refused language i t (.template e))
    (names : language.NamesTypes)
    (plain : ∀ b, BreaksOff refused language i t b → b.call.Plain ⟨language, []⟩ b.store) :
    '\n' ∉ trimRight e.message.toList ↔ ¬ Misnames refused i t := by
  constructor
  · rintro hone ⟨source, name, pos, held, malformed, hname⟩
    have hsame : ∀ source', t.Holds refused (Path.ofText i.template) source' →
        source' = source := by
      intro source' held'
      have hread := (FileTree.readText_ok.mpr ⟨rfl, held'⟩).symm.trans
        (FileTree.readText_ok.mpr ⟨rfl, held⟩)
      exact Except.ok.inj (Prod.mk.inj hread).1
    cases h with
    | parsing source' held' malformed' =>
      obtain rfl := hsame source' held'
      rw [malformed] at malformed'
      cases malformed'
      exact hone (mem_trimRight_misnamed hname)
    | rendering document scope store begins broken =>
      obtain ⟨source', _, _, held', parsed⟩ := begins
      obtain rfl := hsame source' held'
      rw [malformed] at parsed
      cases parsed
  · intro hnames
    refine not_mem_trimRight ?_
    cases h with
    | parsing source held malformed =>
      rcases Document.oneLine_of_ofText? malformed with hone | ⟨name, pos, rfl, hname⟩
      · exact hone
      · exact (hnames ⟨source, name, pos, held, malformed, hname⟩).elim
    | rendering document scope store begins broken =>
      have begins' := begins
      obtain ⟨source, _, _, held, parsed⟩ := begins'
      exact Render.oneLine_of_error parsed names
        (fun b hb => plain b ⟨document, scope, store, begins, hb⟩) broken

end Invocation

/-- The error of a template is reported on one line: the name of the template as it was given and
the message of the error, without the blanks at its end. It is one line exactly if the error is not
about a start tag without an end whose name has a line feed. What the host says where the rendering
breaks off is taken to be on one line. -/
theorem reported_on_one_line {arguments : List String} {i : Invocation}
    (asked : Request.ofArguments? arguments = .ok (.render i)) (quiet : i.verbose = false)
    (path : OneLine i.template) (names : language.NamesTypes)
    (plain : ∀ b, i.BreaksOff refused language t b → b.call.Plain ⟨language, []⟩ b.store)
    {r : Report} (ran : (run (FileTree.refusing refused) language arguments).run t = (.ok r, t'))
    (failed : r.status = 1) :
    ∃ e line, i.Fails refused language t (.template e)
      ∧ line = i.template ++ ": " ++ String.ofList (trimRight e.message.toList)
      ∧ r.usage ++ r.messages = line ++ "\n" ∧ (OneLine line ↔ ¬ i.Misnames refused t) := by
  unfold run at ran
  simp only [asked] at ran
  replace ran := (run_render i t).symm.trans ran
  rcases hp : runFrom t (i.perform (FileTree.refusing refused) language) with ⟨s | r', t₁⟩
  · simp only [hp, Prod.mk.injEq] at ran
    obtain ⟨concluded, rfl⟩ := ran
    obtain ⟨notes, failure⟩ := s
    cases failure with
    | host e =>
      unfold Invocation.conclude at concluded
      dsimp only at concluded
      split at concluded
      · cases concluded
        cases failed
      · cases concluded
    | template e =>
      cases concluded
      have fails : i.Fails refused language t (.template e) :=
        (Invocation.perform_error hp).resolve_left (by rintro ⟨_, h⟩; cases h)
      refine ⟨e, _, fails, rfl, ?_, ?_⟩
      · simp [Invocation.messages, quiet, Invocation.line, String.append_assoc]
      · have hsign : OneLine ": " := by decide
        rw [← fails.oneLine names plain]
        simp only [oneLine_append, oneLine_ofList, path, hsign, true_and]
  · simp only [hp, Prod.mk.injEq, Except.ok.injEq] at ran
    obtain ⟨rfl, -⟩ := ran
    obtain ⟨status, -⟩ := Invocation.perform_ok hp
    rw [status] at failed
    cases failed

/-- The text of a failure, if there is one, is on one line. -/
def endsOnOneLine : Except Failure Unit → Bool
  | .ok _ => true
  | .error f => decide (OneLine f.text)

set_option maxRecDepth 2000 in
/-- A name that no variable has: the error of the host is told on the one line. -/
theorem reported_on_one_line_undefined :
    ∃ e line, Invocation.Fails (fun _ _ => none) (Host.language 6) ⟨"a.xml", "", [], "", false⟩
        ⟨[(["a.xml"], "\x7by\x7d".toUTF8.toList)]⟩ (.template e)
      ∧ "a.xml: Failed to evaluate expression 'y': NameError: name 'y' is not defined at 0 "
          ++ "(line 1, column 1)\n" = line ++ "\n"
      ∧ OneLine line := by
  have hq : Request.ofArguments? ["a.xml"] = .ok (.render ⟨"a.xml", "", [], "", false⟩) := by cbv
  have hread : runFrom (⟨[(["a.xml"], "\x7by\x7d".toUTF8.toList)]⟩ : FileTree)
      ((FileTree.refusing fun _ _ => none).readText (Path.ofText "a.xml"))
      = (.ok "\x7by\x7d".toList, ⟨[(["a.xml"], "\x7by\x7d".toUTF8.toList)]⟩) := by cbv
  have hdoc : Document.ofText? "\x7by\x7d".toList
      = .ok ⟨[.expression ⟨"y", none, .text, 0⟩], "\x7by\x7d".toList⟩ := by cbv
  have hsource : ∀ source, FileTree.Holds ⟨[(["a.xml"], "\x7by\x7d".toUTF8.toList)]⟩
      (fun _ _ => none) (Path.ofText "a.xml") source → source = "\x7by\x7d".toList := by
    intro source held
    have h := (FileTree.readText_ok.mpr ⟨rfl, held⟩).symm.trans hread
    exact Except.ok.inj (Prod.mk.inj h).1
  have hplain : (Render.break? ⟨Host.language 6, []⟩ 0
      ⟨[.expression ⟨"y", none, .text, 0⟩], "\x7by\x7d".toList⟩ [] Store.empty.addSink).all
      (fun b => (b.call.typeName? ⟨Host.language 6, []⟩ b.store).isNone
        && endsOnOneLine (b.call.hosted ⟨Host.language 6, []⟩ b.store).outcome) = true := by cbv
  have hrun : (run (FileTree.refusing fun _ _ => none) (Host.language 6) ["a.xml"]).run
      ⟨[(["a.xml"], "\x7by\x7d".toUTF8.toList)]⟩
      = (.ok ⟨1, "", "", "a.xml: Failed to evaluate expression 'y': NameError: name 'y' is not "
        ++ "defined at 0 (line 1, column 1)\n"⟩,
        ⟨[(["a.xml"], "\x7by\x7d".toUTF8.toList)]⟩) := by cbv
  have plain : ∀ b, Invocation.BreaksOff (fun _ _ => none) (Host.language 6)
      ⟨"a.xml", "", [], "", false⟩ ⟨[(["a.xml"], "\x7by\x7d".toUTF8.toList)]⟩ b →
      b.call.Plain ⟨Host.language 6, []⟩ b.store := by
    rintro b ⟨document, scope, store, ⟨source, members, sets, held, parsed, file, items, binds⟩, hb⟩
    obtain rfl := hsource source held
    rw [hdoc] at parsed
    cases parsed
    obtain rfl : members = [] := file
    cases items
    cases binds.outcome
    cases binds.store
    have h := (Option.all_eq_true _ _).mp hplain b hb
    rw [Bool.and_eq_true] at h
    refine ⟨fun f hf => ?_, fun name hname => ?_⟩
    · have hone := h.2
      rw [hf] at hone
      exact of_decide_eq_true hone
    · rw [Option.isNone_iff_eq_none.mp h.1] at hname
      cases hname
  obtain ⟨e, line, fails, -, hline, hone⟩ := reported_on_one_line hq rfl (by decide)
    (Host.namesTypes_language 6) plain hrun rfl
  refine ⟨e, line, fails, hline, hone.mpr ?_⟩
  rintro ⟨source, _, _, held, malformed, -⟩
  obtain rfl := hsource source held
  rw [hdoc] at malformed
  cases malformed

/-- The name of a tag, read from a literal, brings a line feed into the report. -/
theorem not_on_one_line :
    (run (FileTree.refusing fun _ _ => none) (Host.language 0) ["a.xml"]).run
        ⟨[(["a.xml"], "<\"a\\nb\"".toUTF8.toList)]⟩
      = (.ok ⟨1, "", "", "a.xml: Unterminated tag <a\nb at 0 (line 1, column 1)\n"⟩,
        ⟨[(["a.xml"], "<\"a\\nb\"".toUTF8.toList)]⟩)
      ∧ ¬ OneLine "a.xml: Unterminated tag <a\nb at 0 (line 1, column 1)" := by
  refine ⟨?_, by decide⟩
  have hscan : scan "<\"a\\nb\"".toList 0
      = .ok [.leaf .punct "<" 0 1, .leaf .string "a\nb" 1 7] := by cbv
  have hclassify : classify [.leaf .punct "<" 0 1, .leaf .string "a\nb" 1 7]
      = [.flat .lt "<" 0 1, .flat .string "a\nb" 1 7] := by cbv
  obtain ⟨d, hhead⟩ : ∃ d, Node.readTagHead (Cursor.ofTokens "<\"a\\nb\"".toList
      [.flat .lt "<" 0 1, .flat .string "a\nb" 1 7])
      = .error ⟨.unterminatedTag "a\nb", 0⟩ d := ⟨_, by cbv⟩
  have hnode : readNode (Cursor.ofTokens "<\"a\\nb\"".toList
      [.flat .lt "<" 0 1, .flat .string "a\nb" 1 7])
      = .error ⟨.unterminatedTag "a\nb", 0⟩ d := by
    rw [Node.readNode_eq]
    exact Window.bind_of_error hhead
  have hplace : Location.describe "<\"a\\nb\"".toList 0 = " at 0 (line 1, column 1)" := by cbv
  have hdoc : Document.ofText? "<\"a\\nb\"".toList = .error (.template ⟨.malformed,
      "Unterminated tag <a\nb at 0 (line 1, column 1)", some 0⟩) := by
    rw [Document.ofText?, Document.ofTextFrom?, hscan]
    dsimp only
    rw [hclassify, readNodes_none_eq, if_neg (by decide), if_neg (by decide),
      Window.bind_of_error hnode]
    show Except.error (Failure.template ⟨.malformed, "Unterminated tag <a\nb"
      ++ Location.describe "<\"a\\nb\"".toList 0, some 0⟩) = _
    rw [hplace]
    rfl
  have hread : runFrom (⟨[(["a.xml"], "<\"a\\nb\"".toUTF8.toList)]⟩ : FileTree)
      ((FileTree.refusing fun _ _ => none).readText (Path.ofText "a.xml"))
      = (.ok "<\"a\\nb\"".toList, ⟨[(["a.xml"], "<\"a\\nb\"".toUTF8.toList)]⟩) := by cbv
  have hq : Request.ofArguments? ["a.xml"] = .ok (.render ⟨"a.xml", "", [], "", false⟩) := by cbv
  unfold run
  rw [hq]
  refine (run_render _ _).trans ?_
  rw [Invocation.perform_of_malformed (FileTree.readText_ok.mp hread).2 hdoc]
  cbv

end MarkupTemplate.CommandLine
