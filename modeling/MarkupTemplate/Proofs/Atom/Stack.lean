import MarkupTemplate.Node.Read
import MarkupTemplate.Proofs.Atom.Partition

/-!
# Atoms by a stack of brackets

The recursion of the scan is a stack of brackets. A flat walk reads blanks, literals, numbers, words
and punctuation as the scan does and takes each bracket as one mark; a stack of open brackets then
makes the groups out of the marks.

* `Scan.walk`: the marks of a text up to its end, or up to a literal that cannot be read.
* `Nest.step`, `Walk.atoms`: the stack, and what it makes out of a walk.
* `Scan.Resumes`, `Scan.resume_sequence`: a sequence is read as the stack goes on with the walk.
* `Walk.Reports`: the first thing that is wrong with a walk.
* `scan_walk`: the scan is the stack over the walk.
-/
namespace MarkupTemplate

/-! ## The flat walk -/

/-- One item of the flat walk. -/
inductive Mark where
  | leaf (atom : Atom)
  | opening (bracket : Bracket) (pos : Nat)
  | closing (bracket : Bracket) (pos : Nat)

/-- Where the mark stands. -/
def Mark.pos : Mark → Nat
  | leaf atom => atom.pos
  | opening _ pos => pos
  | closing _ pos => pos

/-- What the flat walk meets: the marks up to the end of the text, or up to the first literal that
cannot be read and what is wrong with it. -/
structure Walk where
  marks : List Mark
  fault : Option ScanFault

/-- The walk with one more mark in front. -/
def Walk.cons (m : Mark) (w : Walk) : Walk := { w with marks := m :: w.marks }

/-- Walks over the text from a place on. -/
def Scan.walk (start : Place) : Walk :=
  let p := start.skipBlanks
  have hp : p.rest.length ≤ start.rest.length := start.length_skipBlanks_le
  match hr : p.rest with
  | [] => ⟨[], none⟩
  | c :: more =>
    have hn : (p.advance 1).rest.length < p.rest.length :=
      Place.length_advance_lt Nat.one_pos (by simp [hr])
    match Bracket.closedBy? c with
    | some b => (walk (p.advance 1)).cons (.closing b p.pos)
    | none =>
      match Bracket.openedBy? c with
      | some b => (walk (p.advance 1)).cons (.opening b p.pos)
      | none =>
        match hl : readLeaf p c more with
        | .error e => ⟨[], some e⟩
        | .ok (a, q) => (walk q).cons (.leaf a)
termination_by start.rest.length
decreasing_by
  · exact Nat.lt_of_lt_of_le hn hp
  · exact Nat.lt_of_lt_of_le hn hp
  · exact Nat.lt_of_lt_of_le (length_readLeaf_lt hr hl) hp

/-- One step of the walk. -/
theorem Scan.walk_eq (p : Place) : walk p = match p.skipBlanks.rest with
    | [] => ⟨[], none⟩
    | c :: more =>
      match Bracket.closedBy? c, Bracket.openedBy? c with
      | some b, _ => (walk (p.skipBlanks.advance 1)).cons (.closing b p.skipBlanks.pos)
      | none, some b => (walk (p.skipBlanks.advance 1)).cons (.opening b p.skipBlanks.pos)
      | none, none =>
        match readLeaf p.skipBlanks c more with
        | .error e => ⟨[], some e⟩
        | .ok (a, q) => (walk q).cons (.leaf a) := by
  fun_cases walk p with
  | case1 _ _ hr => rw [hr]
  | case2 _ _ c more hr _ b hb => rw [hr]; simp only [hb]; rfl
  | case3 _ _ c more hr _ hb b ho => rw [hr]; simp only [hb, ho]; rfl
  | case4 _ _ c more hr _ hb ho e hl =>
    have hl : readLeaf p.skipBlanks c more = .error e := hl
    rw [hr]; simp only [hb, ho, hl]
  | case5 _ _ c more hr _ hb ho a q hl =>
    have hl : readLeaf p.skipBlanks c more = .ok (a, q) := hl
    rw [hr]; simp only [hb, ho, hl]

/-- An open bracket, where it stands, and the atoms in front of it in the same group. -/
structure OpenBracket where
  bracket : Bracket
  pos : Nat
  before : List Atom

/-- The open brackets, the innermost first, and the atoms so far of the innermost. -/
structure Nest where
  opened : List OpenBracket
  atoms : List Atom

namespace Nest

/-- No bracket is open and nothing is read. -/
def empty : Nest := ⟨[], []⟩

/-- The brackets that are open, and where they stand. -/
def brackets (s : Nest) : List (Bracket × Nat) := s.opened.map fun o => (o.bracket, o.pos)

/-- Takes one mark. A closing bracket makes a group of what it encloses when it matches the
innermost open one. -/
def step (text : List Char) (s : Nest) : Mark → Except ScanFault Nest
  | .leaf atom => .ok { s with atoms := s.atoms ++ [atom] }
  | .opening b pos => .ok ⟨⟨b, pos, s.atoms⟩ :: s.opened, []⟩
  | .closing b pos =>
    match s.opened with
    | [] => .error ⟨.unexpectedCloser b.closer, pos⟩
    | o :: opened =>
      if o.bracket = b then
        .ok ⟨opened, o.before ++ [.group b o.pos (pos + 1)
          (String.ofList (Text.slice text (o.pos + 1) pos)) s.atoms]⟩
      else .error ⟨.unexpectedCloser b.closer, pos⟩

/-- What the text holds when the walk has come to its end or to a literal that cannot be read. -/
def finish (s : Nest) (fault : Option ScanFault) : Except ScanFault (List Atom) :=
  match fault, s.opened with
  | some e, _ => .error e
  | none, o :: _ => .error ⟨.unterminatedGroup o.bracket.opener, o.pos⟩
  | none, [] => .ok s.atoms

end Nest

/-- The atoms that the stack makes out of a walk. -/
def Walk.atoms (text : List Char) (s : Nest) (w : Walk) : Except ScanFault (List Atom) := do
  let s ← w.marks.foldlM (Nest.step text) s
  s.finish w.fault

theorem Walk.atoms_cons (text : List Char) (s : Nest) (m : Mark) (w : Walk) :
    (w.cons m).atoms text s = s.step text m >>= fun s => w.atoms text s := by
  simp only [atoms, cons, List.foldlM_cons]
  cases s.step text m <;> rfl

/-! ## The recursion is the stack -/

namespace Scan

variable {text : List Char}

/-- Goes on with the walk where a sequence ends: at the end of the text, or behind the bracket that
closes the innermost open one. -/
def resume (text : List Char) (s : Nest) (as : List Atom) (q : Place) :
    Except ScanFault (List Atom) :=
  match s.opened with
  | [] => .ok (s.atoms ++ as)
  | o :: opened => (walk (q.advance 1)).atoms text
    ⟨opened, o.before ++ [.group o.bracket o.pos (q.pos + 1)
      (String.ofList (Text.slice text (o.pos + 1) q.pos)) (s.atoms ++ as)]⟩

theorem resume_append (s : Nest) (a : Atom) (as : List Atom) (q : Place) :
    resume text { s with atoms := s.atoms ++ [a] } as q = resume text s (a :: as) q := by
  simp only [resume, List.append_assoc, List.singleton_append]

/-- The text between two places. -/
theorem slice_eq_upTo {p q : Place} (h : p.text = text) :
    Text.slice text p.pos q.pos = p.upTo q := by
  rw [Text.slice, ← h, p.drop_text, Place.upTo]

/-- Going on with the walk from a place on, inside open brackets, is to read the rest of the
innermost group and to go on with the walk behind it. -/
def Resumes (text : List Char) (p : Place) : Prop :=
  ∀ s : Nest, (walk p).atoms text s
    = sequence s.brackets.head? p >>= fun r => resume text s r.1 r.2

/-- At a closing bracket, a sequence ends or the bracket does not match. -/
theorem step_closing {c : Char} {b : Bracket} (hb : Bracket.closedBy? c = some b) (s : Nest)
    (p : Place) :
    (s.step text (.closing b p.pos) >>= fun t => (walk (p.advance 1)).atoms text t)
      = (if s.brackets.head?.map (·.1) = some b then .ok ([], p)
          else .error ⟨.unexpectedCloser c, p.pos⟩) >>= fun r => resume text s r.1 r.2 := by
  obtain ⟨_ | ⟨o, opened⟩, atoms⟩ := s
  · simp [Nest.step, Nest.brackets, Bracket.closer_of_closedBy hb, bind, Except.bind]
  · by_cases ho : o.bracket = b
    · simp [ho, Nest.step, Nest.brackets, resume, bind, Except.bind]
    · simp [ho, Nest.step, Nest.brackets, Bracket.closer_of_closedBy hb, bind, Except.bind]

/-- An atom is read in front of what is read behind it. -/
theorem Resumes.atom {q : Place} (h : Resumes text q) (s : Nest) (a : Atom) :
    (walk q).atoms text { s with atoms := s.atoms ++ [a] }
      = (sequence s.brackets.head? q >>= fun r => .ok (a :: r.1, r.2))
        >>= fun r => resume text s r.1 r.2 := by
  rw [h, show Nest.brackets { s with atoms := s.atoms ++ [a] } = s.brackets from rfl]
  cases sequence s.brackets.head? q with
  | error e => rfl
  | ok r => exact resume_append s a r.1 r.2

/-- Behind a group, the walk goes on with less of the same text. -/
theorem sequence_advance {p q : Place} {b : Bracket} {pos : Nat} {as : List Atom}
    (h : sequence (some (b, pos)) p = .ok (as, q)) :
    (q.advance 1).pos = q.pos + 1 ∧ (q.advance 1).text = p.text
      ∧ (q.advance 1).rest.length < p.rest.length := by
  obtain ⟨hreads, hends⟩ := sequence_eq_ok_iff.mp h
  obtain ⟨rest, hq⟩ := List.head?_eq_some_iff.mp hends
  obtain ⟨u, hu, -⟩ := hreads.passes.1.span
  refine ⟨Place.advance_one_pos hq, by rw [Place.text_advance, hreads.passes.1.text_eq], ?_⟩
  rw [Place.length_advance, hu, hq]
  simp only [List.length_append, List.length_cons]
  omega

/-- A group is what is read up to the bracket that closes it, and then comes what follows. -/
theorem Resumes.group {p : Place} {c : Char} {more : List Char} {b : Bracket}
    (hp : p.text = text) (hr : p.rest = c :: more) (hinside : Resumes text (p.advance 1))
    (hbehind : ∀ q : Place, q.text = text → q.rest.length < (p.advance 1).rest.length →
      Resumes text q) (s : Nest) :
    (walk (p.advance 1)).atoms text ⟨⟨b, p.pos, s.atoms⟩ :: s.opened, []⟩
      = (sequence (some (b, p.pos)) (p.advance 1) >>= fun r =>
          sequence s.brackets.head? (r.2.advance 1) >>= fun r' =>
            .ok (.group b p.pos (r.2.advance 1).pos
              (String.ofList ((p.advance 1).upTo r.2)) r.1 :: r'.1, r'.2))
        >>= fun r => resume text s r.1 r.2 := by
  rw [hinside, show (Nest.brackets ⟨⟨b, p.pos, s.atoms⟩ :: s.opened, []⟩).head?
    = some (b, p.pos) from rfl]
  cases hi : sequence (some (b, p.pos)) (p.advance 1) with
  | error e => rfl
  | ok r =>
    obtain ⟨children, q⟩ := r
    obtain ⟨hpos, htext, hlt⟩ := sequence_advance hi
    have htext₁ : (p.advance 1).text = text := by rw [Place.text_advance, hp]
    have hcontent : Text.slice text (p.pos + 1) q.pos = (p.advance 1).upTo q := by
      rw [← Place.advance_one_pos hr, slice_eq_upTo htext₁]
    simp only [bind, Except.bind, resume, List.nil_append, hcontent, ← hpos]
    exact (hbehind _ (htext.trans htext₁) hlt).atom s _

/-- Reading a sequence and going on with the walk behind it is to go on with the walk. -/
theorem resume_sequence {p : Place} (hp : p.text = text) (s : Nest) :
    (walk p).atoms text s
      = sequence s.brackets.head? p >>= fun r => resume text s r.1 r.2 := by
  induction hn : p.rest.length using Nat.strongRecOn generalizing p s with
  | ind n ih =>
  subst hn
  have ih : ∀ q : Place, q.text = text → q.rest.length < p.rest.length → Resumes text q :=
    fun q hq hlt s => ih _ hlt hq s rfl
  have hle := p.length_skipBlanks_le
  have htext : p.skipBlanks.text = text := by rw [Place.skipBlanks, Place.text_advance, hp]
  rw [sequence_eq, walk_eq]
  cases hr : p.skipBlanks.rest with
  | nil =>
    -- the end of the text
    obtain ⟨_ | ⟨o, opened⟩, atoms⟩ := s
    · simp [Walk.atoms, Nest.finish, resume, Nest.brackets, bind, Except.bind, pure, Except.pure]
    · rfl
  | cons c more =>
  have hn : (p.skipBlanks.advance 1).rest.length < p.rest.length :=
    Nat.lt_of_lt_of_le (Place.length_advance_lt Nat.one_pos (by simp [hr])) hle
  dsimp only
  cases hb : Bracket.closedBy? c with
  | some b =>
    simp only [Walk.atoms_cons, Option.isSome_some, if_true]
    exact step_closing hb s p.skipBlanks
  | none =>
  simp only [Option.isSome_none, Bool.false_eq_true, if_false]
  cases ho : Bracket.openedBy? c with
  | some b =>
    rw [Walk.atoms_cons]
    exact Resumes.group htext hr (ih _ (by rw [Place.text_advance, htext]) hn)
      (fun q hq hlt => ih q hq (Nat.lt_trans hlt hn)) s
  | none =>
    dsimp only
    cases hl : readLeaf p.skipBlanks c more with
    | error e => rfl
    | ok r =>
      obtain ⟨a, q⟩ := r
      obtain ⟨_, w, _, _, hq, -, -⟩ := readLeaf_move hr hl
      rw [Walk.atoms_cons]
      exact (ih q (by rw [hq, Place.text_advance, htext])
        (Nat.lt_of_lt_of_le (length_readLeaf_lt hr hl) hle)).atom s a

end Scan

/-! ## What is wrong with a walk -/

/-- The brackets that are open behind a mark, unless it closes another than the innermost. -/
def Mark.track (opened : List (Bracket × Nat)) : Mark → Option (List (Bracket × Nat))
  | leaf _ => some opened
  | opening b pos => some ((b, pos) :: opened)
  | closing b _ =>
    match opened with
    | [] => none
    | (b', _) :: opened => if b' = b then some opened else none

theorem Mark.eq_closing_of_track {m : Mark} {opened : List (Bracket × Nat)}
    (h : m.track opened = none) :
    ∃ b pos, m = .closing b pos ∧ opened.head?.map (·.1) ≠ some b := by
  cases m with
  | leaf a => cases h
  | opening b pos => cases h
  | closing b pos =>
    refine ⟨b, pos, rfl, ?_⟩
    cases opened with
    | nil => simp
    | cons o opened =>
      simp only [track, ite_eq_right_iff, reduceCtorEq, imp_false] at h
      simpa using h

/-- The brackets that marks leave open, the innermost first, if each closing mark matches the most
recent opening mark that is not closed yet. -/
def unclosed (ms : List Mark) : Option (List (Bracket × Nat)) := ms.foldlM Mark.track []

/-- Marks that do not match have a first closing mark that does not. -/
theorem exists_mismatch {ms : List Mark} {opened : List (Bracket × Nat)}
    (h : ms.foldlM Mark.track opened = none) :
    ∃ before b pos after o, ms = before ++ .closing b pos :: after
      ∧ before.foldlM Mark.track opened = some o ∧ o.head?.map (·.1) ≠ some b := by
  induction ms generalizing opened with
  | nil => cases h
  | cons m ms ih =>
    rw [List.foldlM_cons] at h
    cases hm : m.track opened with
    | none =>
      obtain ⟨b, pos, rfl, hb⟩ := Mark.eq_closing_of_track hm
      exact ⟨[], b, pos, ms, _, rfl, rfl, hb⟩
    | some o =>
      rw [hm] at h
      obtain ⟨before, b, pos, after, o', rfl, hbefore, hb⟩ := ih h
      refine ⟨m :: before, b, pos, after, o', rfl, ?_, hb⟩
      rw [List.foldlM_cons, hm]
      exact hbefore

/-- The first thing that is wrong with a walk: a closing mark that does not match, else the literal
that ended the walk, else the innermost bracket that stays open. -/
inductive Walk.Reports (w : Walk) : ScanFault → Prop where
  | closer {before after : List Mark} {b : Bracket} {pos : Nat} {opened : List (Bracket × Nat)}
      (hm : w.marks = before ++ .closing b pos :: after) (ho : unclosed before = some opened)
      (hb : opened.head?.map (·.1) ≠ some b) : Reports w ⟨.unexpectedCloser b.closer, pos⟩
  | literal {e : ScanFault} {opened : List (Bracket × Nat)} (he : w.fault = some e)
      (ho : unclosed w.marks = some opened) : Reports w e
  | group {b : Bracket} {pos : Nat} {opened : List (Bracket × Nat)} (he : w.fault = none)
      (ho : unclosed w.marks = some ((b, pos) :: opened)) :
      Reports w ⟨.unterminatedGroup b.opener, pos⟩

namespace Nest

variable {text : List Char} {s : Nest} {m : Mark} {ms : List Mark}
  {opened : List (Bracket × Nat)}

theorem step_of_track (text : List Char) (h : m.track s.brackets = some opened) :
    ∃ s', s.step text m = .ok s' ∧ s'.brackets = opened := by
  cases m with
  | leaf a => exact ⟨_, rfl, Option.some.inj h⟩
  | opening b pos => exact ⟨_, rfl, Option.some.inj h⟩
  | closing b pos =>
    obtain ⟨_ | ⟨o, os⟩, atoms⟩ := s
    · cases h
    · simp only [Mark.track, brackets, List.map_cons, Option.ite_none_right_eq_some] at h
      obtain ⟨rfl, h⟩ := h
      exact ⟨_, if_pos rfl, Option.some.inj h⟩

theorem step_of_mismatch {b : Bracket} {pos : Nat} (h : s.brackets.head?.map (·.1) ≠ some b) :
    s.step text (.closing b pos) = .error ⟨.unexpectedCloser b.closer, pos⟩ := by
  obtain ⟨_ | ⟨o, os⟩, atoms⟩ := s
  · rfl
  · exact if_neg (by simpa [brackets] using h)

/-- Marks that match leave open what the stack says. -/
theorem run_of_track (text : List Char) (s : Nest)
    (h : ms.foldlM Mark.track s.brackets = some opened) :
    ∃ s', ms.foldlM (step text) s = .ok s' ∧ s'.brackets = opened := by
  induction ms generalizing s with
  | nil => exact ⟨s, rfl, Option.some.inj h⟩
  | cons m ms ih =>
    rw [List.foldlM_cons] at h
    obtain ⟨o, hm, h⟩ := Option.bind_eq_some_iff.mp h
    obtain ⟨s', hs, rfl⟩ := step_of_track text hm
    obtain ⟨t, ht, hto⟩ := ih s' h
    exact ⟨t, by rw [List.foldlM_cons, hs]; exact ht, hto⟩

end Nest

namespace Walk

variable {text : List Char} {w : Walk}

/-- A walk without a fault whose brackets match gives atoms. -/
theorem atoms_of_closed (text : List Char) (hf : w.fault = none) (ho : unclosed w.marks = some []) :
    ∃ as, w.atoms text .empty = .ok as := by
  obtain ⟨⟨_ | ⟨o, os⟩, as⟩, hs, hb⟩ := Nest.run_of_track text .empty ho
  · exact ⟨as, by rw [atoms, hs, hf]; rfl⟩
  · cases hb

/-- A walk gives the error that it reports. -/
theorem Reports.atoms {e : ScanFault} (h : w.Reports e) : w.atoms text .empty = .error e := by
  cases h with
  | @closer before after b pos opened hm ho hb =>
    obtain ⟨s, hs, rfl⟩ := Nest.run_of_track text .empty ho
    rw [Walk.atoms, hm, List.foldlM_append, hs]
    simp only [bind, Except.bind, List.foldlM_cons, Nest.step_of_mismatch hb]
  | literal he ho =>
    obtain ⟨s, hs, -⟩ := Nest.run_of_track text .empty ho
    rw [Walk.atoms, hs, he]; rfl
  | group he ho =>
    obtain ⟨⟨_ | ⟨o, os⟩, as⟩, hs, hb⟩ := Nest.run_of_track text .empty ho
    · cases hb
    · obtain ⟨rfl, rfl⟩ := Prod.mk.inj (List.cons.inj hb).1
      rw [Walk.atoms, hs, he]; rfl

/-- Something is wrong with every walk with a fault or with brackets that do not match. -/
theorem closed_or_reports (w : Walk) :
    w.fault = none ∧ unclosed w.marks = some [] ∨ ∃ e, w.Reports e := by
  cases ho : unclosed w.marks with
  | none =>
    obtain ⟨before, b, pos, after, o, hm, ho, hb⟩ := exists_mismatch ho
    exact .inr ⟨_, .closer hm ho hb⟩
  | some opened =>
    cases hf : w.fault with
    | some e => exact .inr ⟨e, .literal hf ho⟩
    | none =>
      cases opened with
      | nil => exact .inl ⟨rfl, rfl⟩
      | cons o opened => exact .inr ⟨_, .group hf ho⟩

theorem atoms_eq_error_iff {e : ScanFault} : w.atoms text .empty = .error e ↔ w.Reports e := by
  refine ⟨fun h => ?_, Reports.atoms⟩
  rcases w.closed_or_reports with ⟨hf, ho⟩ | ⟨e', he'⟩
  · obtain ⟨as, has⟩ := atoms_of_closed text hf ho
    rw [has] at h
    cases h
  · rw [he'.atoms] at h
    cases h
    exact he'

end Walk

/-! ## Where a walk ends -/

namespace Literal

/-- The fault is a bad escape of the text, at or behind an offset, and stands at its backslash. -/
def BadEscape (text : List Char) (lo : Nat) (e : ScanFault) : Prop :=
  ∃ (q : Place) (d : Char) (rest : List Char), q.text = text ∧ lo ≤ q.pos ∧ e.pos = q.pos
    ∧ q.rest = '\\' :: d :: rest ∧ readEscape d rest = .error e.cause

/-- The literal at a place cannot be read: it has no end, and the fault stands at its opening quote,
or it has a bad escape. -/
def Fails (p : Place) (e : ScanFault) : Prop :=
  (∃ c ∈ p.rest.head?, c = '\x27' ∨ c = '"')
    ∧ (e = ⟨.unterminatedString, p.pos⟩ ∨ BadEscape p.text (p.pos + 1) e)

theorem BadEscape.mono {text : List Char} {lo lo' : Nat} {e : ScanFault}
    (h : BadEscape text lo e) (hle : lo' ≤ lo) : BadEscape text lo' e := by
  obtain ⟨q, d, rest, htext, hlo, hq⟩ := h
  exact ⟨q, d, rest, htext, Nat.le_trans hle hlo, hq⟩

end Literal

/-- The marks of the walk stand in the order of the text, and what it ends at stands behind them. -/
structure Walk.Ordered (w : Walk) : Prop where
  marks : w.marks.Pairwise fun m n => m.pos < n.pos
  fault : ∀ e ∈ w.fault, ∀ m ∈ w.marks, m.pos < e.pos

/-- Nothing that the walk meets stands before an offset. -/
structure Walk.From (w : Walk) (lo : Nat) : Prop where
  marks : ∀ m ∈ w.marks, lo ≤ m.pos
  fault : ∀ e ∈ w.fault, lo ≤ e.pos

theorem Walk.Ordered.cons {w : Walk} {m : Mark} (h : w.Ordered) (hm : w.From (m.pos + 1)) :
    (w.cons m).Ordered where
  marks := List.pairwise_cons.mpr ⟨hm.marks, h.marks⟩
  fault e he := List.forall_mem_cons.mpr ⟨hm.fault e he, h.fault e he⟩

theorem Walk.From.cons {w : Walk} {m : Mark} {lo : Nat} (h : w.From (m.pos + 1))
    (hlo : lo ≤ m.pos) : (w.cons m).From lo where
  marks := List.forall_mem_cons.mpr
    ⟨hlo, fun n hn => Nat.le_trans (Nat.le_succ_of_le hlo) (h.marks n hn)⟩
  fault e he := Nat.le_trans (Nat.le_succ_of_le hlo) (h.fault e he)

namespace Scan

end Scan

/-- The scan is the stack over the flat walk. -/
theorem scan_eq_atoms (text : List Char) (offset : Nat) :
    scan text offset = (Scan.walk (Place.ofOffset text offset)).atoms text .empty := by
  rw [scan_eq_sequence, Scan.resume_sequence (Place.text_ofOffset text offset) .empty,
    show Nest.empty.brackets.head? = none from rfl]
  cases Scan.sequence none (Place.ofOffset text offset) <;> rfl

/-- Whatever is wrong with the pieces of a text is a template error at its offset, unless it is a
character code beyond the machine's integers. -/
theorem Fault.toFailure_ofScan {e : ScanFault} {text : List Char} (h : e.cause ≠ .codeOverflow) :
    (ofScan e).toFailure text
      = .template (.located .malformed e.cause.message e.pos (some text)) := by
  obtain ⟨cause, pos⟩ := e
  cases cause with
  | codeOverflow => exact absurd rfl h
  | _ => rfl

end MarkupTemplate
