import Mathlib
import MarkupTemplate.Host.Run
import MarkupTemplate.Proofs.Node.Script
import MarkupTemplate.Proofs.Sequence

/-!
# Loops

A loop requests an item, matches it with its pattern, writes its body with the names of this one
item over the variables of the loop, and only then requests the next item. It is the program that
does so once for each item. Whatever a request, a pattern or a body fails with, the bodies of the
items before are written, and nothing is requested afterwards. The guard of the loop gives its place
to the errors of requests and patterns; those of a body have theirs.

* `Render.Loop`: a loop, with the variables that it starts with.
* `Loop.run_eq`: a loop is its rounds.
* `Loop.unrolled`: the program of given items, `Loop.items_eq_unrolled`.
* `Loop.Rounds`: rounds that end well; `Loop.Rounds.output`: what they write.
* `Loop.exists_rounds`: every run of a loop is such rounds, and then a stop.
* `loop_unrolls`: a loop is its bodies one after the other, up to the first failure.
-/
namespace MarkupTemplate

open MarkupTemplate.Action

/-- A loop of a rendering, with the variables that it starts with. -/
structure Render.Loop where
  rendering : Rendering
  scope : Bindings
  pattern : String
  iterable : String
  body : List Node
  pos : Nat

namespace Render.Loop

variable (l : Loop) (it : Nat)

/-- The run of the loop as a node. -/
def run : Action Bindings :=
  Render.node l.rendering l.scope (.loop l.pattern l.iterable l.body l.pos)

/-- Makes an iterator over the value of the expression. -/
def start : Action Nat :=
  located l.rendering l.pos (l.rendering.evaluator.iterate l.iterable l.scope)

/-- Requests the next item of an iterator. -/
def request : Action (Option Value) :=
  located l.rendering l.pos (l.rendering.evaluator.next l.iterable it)

/-- The names that the pattern binds for an item. -/
def bind (v : Value) : Action Bindings :=
  located l.rendering l.pos (l.rendering.evaluator.bind l.pattern v l.scope)

/-- Writes the body with some names over the variables of the loop. -/
def write (b : Bindings) : Action Unit := do
  let _ ← nodes l.rendering (b.shadow l.scope) l.body

/-- The rounds of the loop, at most as many as given. -/
def items : Nat → Action Unit
  | 0 => Action.raise .recursion "maximum recursion depth exceeded"
  | limit + 1 => do
    match ← l.request it with
    | none => return ()
    | some v =>
      let b ← l.bind v
      l.write b
      items limit

/-- The bodies of given items one after the other, the request of each item before its body, and a
last request. -/
def unrolled : List Value → Action Unit
  | [] => do let _ ← l.request it
  | v :: rest => do
    let _ ← l.request it
    let b ← l.bind v
    l.write b
    unrolled rest

/-! ## The guard of the loop -/

theorem located_write (b : Bindings) : located l.rendering l.pos (l.write b) = l.write b := by
  rw [write, located_bind, Script.located_nodes]
  rfl

/-- The guard of a loop is that of its requests and patterns. -/
theorem located_eachItem (limit : Nat) :
    located l.rendering l.pos (eachItem l.rendering l.pattern l.iterable l.scope
        (fun b => do let _ ← nodes l.rendering b l.body) it limit)
      = l.items it limit := by
  induction limit with
  | zero => rfl
  | succ limit ih =>
    rw [eachItem, items, located_bind]
    refine congrArg (_ >>= ·) (funext fun item => ?_)
    cases item with
    | none => rfl
    | some v =>
      have hwrite (b : Bindings) : located l.rendering l.pos
          (do let _ ← nodes l.rendering (b.shadow l.scope) l.body) = l.write b := l.located_write b
      simp only [located_bind, hwrite, ih]
      rfl

/-- A loop makes an iterator and does its rounds; then its variables are as they were. -/
theorem run_eq : l.run = do
    let it ← l.start
    l.items it l.rendering.evaluator.language.limit
    return l.scope := by
  rw [run, node, located_bind, Action.bind_assoc]
  refine congrArg (_ >>= ·) (funext fun it => ?_)
  rw [← located_eachItem]

/-! ## Given items -/

/-- The items that the requests of a run answer, the last request answering no item or failing. What
the requests behind a pattern or a body answer counts only if these end well. -/
def Yields : List Value → Store → Prop
  | [], s => ∀ v, (l.request it s).outcome ≠ .ok (some v)
  | v :: rest, s =>
    (l.request it s).outcome = .ok (some v)
      ∧ ∀ b, (l.bind v (l.request it s).store).outcome = .ok b →
        (l.write b (l.bind v (l.request it s).store).store).outcome = .ok () →
          Yields rest (l.write b (l.bind v (l.request it s).store).store).store

/-- The rounds of a loop are the bodies of its items, one after the other. -/
theorem items_eq_unrolled {xs : List Value} {s : Store} (h : l.Yields it xs s) {limit : Nat}
    (hlimit : xs.length < limit) : l.items it limit s = l.unrolled it xs s := by
  induction xs generalizing s limit with
  | nil =>
    obtain ⟨limit, rfl⟩ := Nat.exists_eq_add_of_lt hlimit
    refine bind_congr_at fun item hitem => ?_
    cases item with
    | none => rfl
    | some v => exact absurd hitem (h v)
  | cons v rest ih =>
    obtain ⟨limit, rfl⟩ := Nat.exists_eq_add_of_lt hlimit
    obtain ⟨hv, hrest⟩ := h
    refine bind_congr_at fun item hitem => ?_
    cases hv.symm.trans hitem
    refine bind_congr_at fun b hb => bind_congr_at fun _ hwrite => ?_
    exact ih (hrest b hb hwrite) (by simp only [List.length_cons] at hlimit ⊢; omega)

/-- A loop is the program of its items. -/
theorem run_eq_unrolled {xs : List Value} {s s₀ : Store} {it : Nat}
    (hstart : l.start.Ends s (.ok it) s₀) (h : l.Yields it xs s₀)
    (hlimit : xs.length < l.rendering.evaluator.language.limit) :
    l.run s = (do let it ← l.start; l.unrolled it xs; return l.scope : Action Bindings) s := by
  rw [l.run_eq]
  refine bind_congr_at fun it' hit' => ?_
  cases hstart.1.symm.trans hit'
  rw [hstart.2]
  have hitems := l.items_eq_unrolled it h hlimit
  exact bind_congr_left hitems

/-! ## Rounds -/

/-- A round of a loop: its item, the names that the pattern binds for it, what host code wrote while
the item was requested and matched, and what the body wrote. -/
structure Round where
  item : Value
  names : Bindings
  asked : String
  text : String

/-- What a round wrote. -/
def Round.written (x : Round) : String := x.asked ++ x.text

/-- Rounds that end well, from a store to a store: the item is requested, it matches, and the body
is written with the names of this item over the variables of the loop. -/
inductive Rounds : List Round → Store → Store → Prop where
  | nil (s : Store) : Rounds [] s s
  | cons {x : Round} {rest : List Round} {s s₁ s₂ s₃ t : Store}
      (hitem : (l.request it).Ends s (.ok (some x.item)) s₁)
      (hnames : (l.bind x.item).Ends s₁ (.ok x.names) s₂)
      (hasked : s₂.output l.rendering.sink = s.output l.rendering.sink ++ x.asked)
      (hbody : (l.write x.names).Ends s₂ (.ok ()) s₃)
      (htext : s₃.output l.rendering.sink = s₂.output l.rendering.sink ++ x.text)
      (hrest : Rounds rest s₃ t) : Rounds (x :: rest) s t

/-- Where a loop stops: its iterator has no further item, a request or the pattern fails, or the
body fails. -/
inductive Stops : Store → Except Failure Unit → Store → Prop where
  | finished {s u : Store} (h : (l.request it).Ends s (.ok none) u) : Stops s (.ok ()) u
  | request {s u : Store} {e : Failure} (h : (l.request it).Ends s (.error e) u) :
      Stops s (.error e) u
  | pattern {s s₁ u : Store} {v : Value} {e : Failure}
      (hitem : (l.request it).Ends s (.ok (some v)) s₁) (h : (l.bind v).Ends s₁ (.error e) u) :
      Stops s (.error e) u
  | body {s s₁ s₂ u : Store} {v : Value} {b : Bindings} {e : Failure}
      (hitem : (l.request it).Ends s (.ok (some v)) s₁) (hnames : (l.bind v).Ends s₁ (.ok b) s₂)
      (h : (l.write b).Ends s₂ (.error e) u) : Stops s (.error e) u

variable {l it} {rounds : List Round} {s t : Store}

/-- What rounds wrote stands behind what the sink held, one round after the other. -/
theorem Rounds.output (h : l.Rounds it rounds s t) :
    t.output l.rendering.sink
      = s.output l.rendering.sink ++ String.join (rounds.map Round.written) := by
  induction h with
  | nil s => simp
  | cons _ _ hasked _ htext _ ih =>
    rw [ih, htext, hasked]
    simp only [List.map_cons, String.join_cons, Round.written, String.append_assoc]

/-- The items of rounds behind which there is no further item are the items of the run. -/
theorem Rounds.yields (h : l.Rounds it rounds s t)
    (hlast : ∀ v, (l.request it t).outcome ≠ .ok (some v)) :
    l.Yields it (rounds.map Round.item) s := by
  induction h with
  | nil s => exact hlast
  | cons hitem hnames _ hbody _ _ ih =>
    obtain ⟨hitem, rfl⟩ := hitem
    refine ⟨hitem, fun b hb _ => ?_⟩
    cases hnames.1.symm.trans hb
    rw [hnames.2, hbody.2]
    exact ih hlast

/-- Behind rounds that end well, a loop goes on where they end. -/
theorem Rounds.items (h : l.Rounds it rounds s t) {limit : Nat} {o : Except Failure Unit}
    {u : Store} (hrest : (l.items it limit).Ends t o u) :
    (l.items it (rounds.length + limit)).Ends s o u := by
  induction h with
  | nil s => rwa [List.length_nil, Nat.zero_add]
  | @cons x rest _ _ _ _ _ hitem hnames _ hbody _ _ ih =>
    rw [List.length_cons, Nat.succ_add]
    exact hitem.bind (hnames.bind (hbody.bind (ih hrest)))

/-- A loop that stops does not go on, however many rounds are left. -/
theorem Stops.items {o : Except Failure Unit} {u : Store} (h : l.Stops it t o u) (limit : Nat) :
    (l.items it (limit + 1)).Ends t o u := by
  cases h with
  | finished h => exact h.bind ⟨rfl, rfl⟩
  | request h => exact h.bind_error
  | pattern hitem h => exact hitem.bind h.bind_error
  | body hitem hnames h => exact hitem.bind (hnames.bind h.bind_error)

/-- Every run of a loop is rounds that end well, and then a stop, unless there are too many
items. -/
theorem exists_rounds (l : Loop) (it limit : Nat) (s : Store) :
    ∃ rounds t, l.Rounds it rounds s t
      ∧ (rounds.length = limit ∨ rounds.length < limit ∧ ∃ o u, l.Stops it t o u) := by
  induction limit generalizing s with
  | zero => exact ⟨[], s, .nil s, .inl rfl⟩
  | succ limit ih =>
    have stop {o : Except Failure Unit} {u : Store} (h : l.Stops it s o u) :
        ∃ rounds t, l.Rounds it rounds s t
          ∧ (rounds.length = limit + 1 ∨ rounds.length < limit + 1 ∧ ∃ o u, l.Stops it t o u) :=
      ⟨[], s, .nil s, .inr ⟨Nat.succ_pos limit, o, u, h⟩⟩
    cases hitem : (l.request it s).outcome with
    | error e => exact stop (.request ⟨hitem, rfl⟩)
    | ok item =>
      cases item with
      | none => exact stop (.finished ⟨hitem, rfl⟩)
      | some v =>
        cases hnames : (l.bind v (l.request it s).store).outcome with
        | error e => exact stop (.pattern ⟨hitem, rfl⟩ ⟨hnames, rfl⟩)
        | ok b =>
          cases hbody : (l.write b (l.bind v (l.request it s).store).store).outcome with
          | error e => exact stop (.body ⟨hitem, rfl⟩ ⟨hnames, rfl⟩ ⟨hbody, rfl⟩)
          | ok _ =>
            obtain ⟨rounds, t, hrounds, hlength⟩ :=
              ih (l.write b (l.bind v (l.request it s).store).store).store
            obtain ⟨asked, hasked⟩ := Store.exists_output
              ((l.request it s).grows.trans (l.bind v (l.request it s).store).grows)
              l.rendering.sink
            obtain ⟨text, htext⟩ := Store.exists_output
              (l.write b (l.bind v (l.request it s).store).store).grows l.rendering.sink
            refine ⟨⟨v, b, asked, text⟩ :: rounds, t,
              .cons ⟨hitem, rfl⟩ ⟨hnames, rfl⟩ hasked ⟨hbody, rfl⟩ htext hrounds, ?_⟩
            simpa only [List.length_cons, Nat.add_right_cancel_iff, Nat.add_lt_add_iff_right]
              using hlength

/-- Once a loop has its iterator, it ends as the stop behind its rounds. -/
theorem Rounds.run {s₀ : Store} (hstart : l.start.Ends s (.ok it) s₀) (h : l.Rounds it rounds s₀ t)
    (hlimit : rounds.length < l.rendering.evaluator.language.limit) {o : Except Failure Unit}
    {u : Store} (hstop : l.Stops it t o u) : l.run.Ends s (o.map fun _ => l.scope) u := by
  obtain ⟨limit, hl⟩ := Nat.exists_eq_add_of_lt hlimit
  rw [Nat.add_assoc] at hl
  have hitems := h.items (hstop.items limit)
  rw [run_eq, hl]
  cases o with
  | ok _ => exact hstart.bind (hitems.bind ⟨rfl, rfl⟩)
  | error e => exact hstart.bind hitems.bind_error

end Render.Loop

/-! ## Unrolling -/

/-- A loop whose iterator is made, and that meets fewer items than the language takes. It is the
program of the items that its requests answer. If its first rounds end well, the sink holds what
they wrote, one round after the other, each body with the names of its own item over the variables
of the loop, and then:
* without a further item, the loop ends well, with the variables it started with;
* if the iterator fails, the loop fails at its place with an error about this failure;
* if the next item does not match, the loop fails at its place with an error about the type of the
  item;
* if the body of the next item fails, the loop fails with the same error, in the store that this
  body left. -/
theorem loop_unrolls (l : Render.Loop) (hsource : l.rendering.source ≠ []) {s s₀ : Store} {it : Nat}
    (hstart : l.start.Ends s (.ok it) s₀) :
    (∀ xs, l.Yields it xs s₀ → xs.length < l.rendering.evaluator.language.limit →
        l.run s = (do let it ← l.start; l.unrolled it xs; return l.scope : Action Bindings) s)
      ∧ ∀ rounds t, l.Rounds it rounds s₀ t →
        rounds.length < l.rendering.evaluator.language.limit →
        t.output l.rendering.sink
            = s₀.output l.rendering.sink ++ String.join (rounds.map (·.written))
          ∧ (∀ u, (l.rendering.evaluator.next l.iterable it).Ends t (.ok none) u →
            l.run.Ends s (.ok l.scope) u)
          ∧ (∀ e u, (l.rendering.evaluator.language.next it).Ends t (.error (.host e)) u →
            e.kind ≠ .stopIteration →
            l.run.Ends s (.error (.template (.located .evaluation
              ("Failed to iterate over "
                ++ String.ofList (Text.quoteChars (Text.squeeze l.iterable.toList)) ++ ": "
                ++ (Failure.host e).summary) l.pos (some l.rendering.source)))) u)
          ∧ (∀ v type u u' u'',
            (l.rendering.evaluator.next l.iterable it).Ends t (.ok (some v)) u →
            (l.rendering.evaluator.match? l.pattern v l.scope).Ends u (.ok none) u' →
            (l.rendering.evaluator.language.typeName v).Ends u' (.ok type) u'' →
            l.run.Ends s (.error (.template (.located .evaluation
              ("Pattern " ++ Text.quote (Evaluator.trimmed l.pattern)
                ++ " does not match value of type " ++ type)
              l.pos (some l.rendering.source)))) u'')
          ∧ ∀ v b e u u' u'',
            (l.rendering.evaluator.next l.iterable it).Ends t (.ok (some v)) u →
            (l.rendering.evaluator.match? l.pattern v l.scope).Ends u (.ok (some b)) u' →
            (Render.nodes l.rendering (b.shadow l.scope) l.body).Ends u' (.error e) u'' →
            l.run.Ends s (.error e) u'' := by
  have hlocate (message : String) : (Failure.template (.unlocated .evaluation message)).locate
      l.rendering.source l.pos
        = .template (.located .evaluation message l.pos (some l.rendering.source)) :=
    if_pos ⟨.inl rfl, hsource⟩
  refine ⟨fun xs hxs hlimit => ?_, fun rounds t h hlimit => ⟨h.output, fun u hu => ?_,
    fun e u hu he => ?_, fun v type u u' u'' hu hu' hu'' => ?_,
    fun v b e u u' u'' hu hu' hu'' => ?_⟩⟩
  · exact l.run_eq_unrolled hstart hxs hlimit
  · have hrequest : (l.request it).Ends t (.ok none) u := Render.ends_located hu
    exact h.run hstart hlimit (.finished hrequest)
  · have hnext : (l.rendering.evaluator.next l.iterable it).Ends t
        (.error (.during .iterate l.iterable (.host e))) u := by
      obtain ⟨kind, text⟩ := e
      cases kind with
      | stopIteration => exact absurd rfl he
      | _ => exact hu.orElse_error ⟨rfl, rfl⟩
    have hrequest : (l.request it).Ends t (.error
        ((Failure.during .iterate l.iterable (.host e)).locate l.rendering.source l.pos)) u :=
      Render.ends_located_error hnext
    rw [Failure.during, hlocate] at hrequest
    exact h.run hstart hlimit (.request hrequest)
  · have hrequest : (l.request it).Ends t (.ok (some v)) u := Render.ends_located hu
    have hbind : (l.rendering.evaluator.bind l.pattern v l.scope).Ends u
        (.error (.template (.unlocated .evaluation
          ("Pattern " ++ Text.quote (Evaluator.trimmed l.pattern)
            ++ " does not match value of type " ++ type)))) u'' :=
      hu'.bind (hu''.bind ⟨rfl, rfl⟩)
    have hpattern : (l.bind v).Ends u (.error ((Failure.template (.unlocated .evaluation
          ("Pattern " ++ Text.quote (Evaluator.trimmed l.pattern)
            ++ " does not match value of type " ++ type))).locate l.rendering.source l.pos)) u'' :=
      Render.ends_located_error hbind
    rw [hlocate] at hpattern
    exact h.run hstart hlimit (.pattern hrequest hpattern)
  · have hrequest : (l.request it).Ends t (.ok (some v)) u := Render.ends_located hu
    have hnames : (l.rendering.evaluator.bind l.pattern v l.scope).Ends u (.ok b) u' :=
      hu'.bind ⟨rfl, rfl⟩
    have hbind : (l.bind v).Ends u (.ok b) u' := Render.ends_located hnames
    have hbody : (l.write b).Ends u' (.error e) u'' := hu''.bind_error
    exact h.run hstart hlimit (.body hrequest hbind hbody)

/-- An iterator that gives one item and then fails. -/
theorem loop_unrolls_failing :
    ∃ (l : Render.Loop) (s s₀ t u : Store) (it : Nat) (rounds : List Render.Loop.Round),
      l.rendering.source ≠ [] ∧ l.start.Ends s (.ok it) s₀ ∧ l.Yields it [.str "a"] s₀
        ∧ l.Rounds it rounds s₀ t ∧ t.output l.rendering.sink = "-"
        ∧ (l.rendering.evaluator.language.next it).Ends t (.error (.raised .value "boom")) u
        ∧ l.run s
          = (do let it ← l.start; l.unrolled it [.str "a"]; return l.scope : Action Bindings) s
        ∧ l.run.Ends s (.error (.template (.located .evaluation
            "Failed to iterate over 'x': ValueError: boom" 0 (some l.rendering.source)))) u := by
  let s : Store :=
    ⟨#[.iterator (.scripted [.str "a"] (some (.raised .value "boom")))], [], 0, 0⟩
  let l : Render.Loop :=
    ⟨⟨⟨Host.language 3, []⟩, 0, "for c in x \x7b'-'\x7d".toList⟩, [("x", .object 0)], "c", "x",
      [.text "-"], 0⟩
  have hstart : l.start.Ends s (.ok 0) s := ⟨by cbv, by cbv⟩
  -- The iterator without its item, and what the body wrote.
  let left : Store := ⟨#[.iterator (.scripted [] (some (.raised .value "boom")))], [], 0, 0⟩
  let written : Store := left.append 0 "-"
  have hitem : (l.request 0).Ends s (.ok (some (.str "a"))) left := ⟨by cbv, by cbv⟩
  have hnames : (l.bind (.str "a")).Ends left (.ok [("c", .str "a")]) left := ⟨by cbv, by cbv⟩
  have hbody : (l.write [("c", .str "a")]).Ends left (.ok ()) written := ⟨rfl, rfl⟩
  have hrounds : l.Rounds 0 [⟨.str "a", [("c", .str "a")], "", "-"⟩] s written :=
    .cons hitem hnames rfl hbody rfl (.nil written)
  have hfails : (l.rendering.evaluator.language.next 0).Ends written
      (.error (.raised .value "boom")) ((l.rendering.evaluator.language.next 0) written).store :=
    ⟨by cbv, rfl⟩
  have hlast : (l.request 0 written).outcome.isOk = false := by cbv
  have hyields : l.Yields 0 [.str "a"] s := hrounds.yields fun v hv => by
    rw [hv] at hlast
    cases hlast
  obtain ⟨hrun, hstops⟩ := loop_unrolls l (by decide) hstart
  obtain ⟨houtput, -, hfailed, -⟩ := hstops _ _ hrounds (by decide)
  have hmessage : "Failed to iterate over "
      ++ String.ofList (Text.quoteChars (Text.squeeze l.iterable.toList)) ++ ": "
      ++ (Failure.host ⟨.value, some "boom"⟩).summary
        = "Failed to iterate over 'x': ValueError: boom" := by cbv
  have hend := hfailed ⟨.value, some "boom"⟩ _ hfails (by decide)
  rw [hmessage] at hend
  exact ⟨l, s, s, written, _, 0, _, by decide, hstart, hyields, hrounds, houtput, hfails,
    hrun _ hyields (by decide), hend⟩

end MarkupTemplate
