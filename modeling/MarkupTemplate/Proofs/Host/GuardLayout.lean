import MarkupTemplate.Proofs.Host.Guard.Passage

/-!
# The guard in two layouts

In two layouts of a text the same word opens the guard, and what stands in front of it and behind it
are again two layouts of one text. The only thing that can come between is the indentation: outside
brackets a line has to fit the lines in front of it, or the text cannot be cut.

* `SameGuard`: the guard is found in the same place of two layouts.
* `SameFrom`: this holds of what stands from a place on in two layouts.
* `splitGuard_relaid`: the split of two layouts.
-/
namespace MarkupTemplate.Host

/-! ## Two layouts -/

/-- What is found in two layouts: a line of one of them does not fit, there is no guard in either,
or the guard starts in the same place of both. -/
inductive SameGuard (k : List Bracket) (s s' : List Char) :
    Except Ending (Option (List Char)) → Except Ending (Option (List Char)) → Prop
  | left (r' : Except Ending (Option (List Char))) : SameGuard k s s' (.error .misindented) r'
  | right (r : Except Ending (Option (List Char))) : SameGuard k s s' r (.error .misindented)
  | whole : SameGuard k s s' (.ok none) (.ok none)
  | found {a a' b b' : List Char} (hs : s = a ++ 'i' :: 'f' :: b)
      (hs' : s' = a' ++ 'i' :: 'f' :: b') (ha : Relaid k [] a a') (hb : Relaid [] [] b b') :
      SameGuard k s s' (.ok (some a)) (.ok (some a'))

/-- The same is found from a place on, whatever blocks are open there. -/
def SameFrom (k : List Bracket) (s s' : List Char) : Prop :=
  ∀ indents indents', SameGuard k s s' (guardAt .inLine ⟨k.length, false, indents⟩ s)
    (guardAt .inLine ⟨k.length, false, indents'⟩ s')

section

variable {k k₁ : List Bracket} {s s' : List Char}

/-- A text in front of which the same is found in both layouts. -/
theorem SameGuard.prepend {w w' : List Char} {r r' : Except Ending (Option (List Char))}
    (h : SameGuard k₁ s s' r r')
    (hw : ∀ a a', a <+: s → a' <+: s' → Relaid k₁ [] a a' → Relaid k [] (w ++ a) (w' ++ a')) :
    SameGuard k (w ++ s) (w' ++ s') (Host.prepend w r) (Host.prepend w' r') := by
  cases h with
  | left => exact .left _
  | right => exact .right _
  | whole => exact .whole
  | found hs hs' ha hb =>
    refine .found ?_ ?_ (hw _ _ ⟨_, hs.symm⟩ ⟨_, hs'.symm⟩ ha) hb
    · rw [hs, List.append_assoc]
    · rw [hs', List.append_assoc]

theorem SameFrom.opener {b : Bracket} (h : SameFrom (b :: k) s s') :
    SameFrom k (b.opener :: s) (b.opener :: s') := by
  intro indents indents'
  have hpass (indents : List Nat) (s : List Char) :
      guardAt .inLine ⟨k.length, false, indents⟩ (b.opener :: s)
        = prepend [b.opener] (guardAt .inLine ⟨(b :: k).length, false, indents⟩ s) :=
    guardAt_pass (a := [b.opener]) (Piece.stepInLine_opener _ b s) rfl (by decide)
  rw [hpass, hpass]
  show SameGuard k ([b.opener] ++ s) ([b.opener] ++ s') _ _
  exact (h indents indents').prepend fun _ _ _ _ ha => ha.opener

theorem SameFrom.closer {b : Bracket} (h : SameFrom k s s') :
    SameFrom (b :: k) (b.closer :: s) (b.closer :: s') := by
  intro indents indents'
  have hdepth : ((b :: k).length : Int) - 1 = k.length := by simp
  have hpass (indents : List Nat) (s : List Char) :
      guardAt .inLine ⟨(b :: k).length, false, indents⟩ (b.closer :: s)
        = prepend [b.closer] (guardAt .inLine ⟨k.length, false, indents⟩ s) := by
    have hstep := Piece.stepInLine_closer ⟨(b :: k).length, false, indents⟩ b s
    rw [hdepth] at hstep
    exact guardAt_pass (a := [b.closer]) hstep hdepth (by decide)
  rw [hpass, hpass]
  show SameGuard (b :: k) ([b.closer] ++ s) ([b.closer] ++ s') _ _
  exact (h indents indents').prepend fun _ _ _ _ ha => ha.closer

/-- What stands at the front of a text also stands at that of the texts it starts with. -/
theorem head?_eq_of_front {a s : List Char} (h : a <+: s) : ∀ c ∈ a.head?, s.head? = some c := by
  obtain ⟨t, rfl⟩ := h
  cases a with
  | nil => exact fun _ hc => by cases hc
  | cons d a => exact fun _ hc => hc

theorem SameFrom.literal {u : List Char} {q : Char} {long : Bool} {body : List Char}
    (hu : ∀ c ∈ u, isSign c = true) (hmarks : u = [] ∨ Piece.marks u = true)
    (hq : Piece.isQuote q = true) (hbody : Body q long body)
    (hs : long = false → body = [] → s.head? ≠ some q ∧ s'.head? ≠ some q)
    (h : SameFrom k s s') :
    SameFrom k (u ++ (literalOf q long body ++ s)) (u ++ (literalOf q long body ++ s')) := by
  intro indents indents'
  rw [guardAt_literal hq hu hmarks hbody fun hl hb => (hs hl hb).1,
    guardAt_literal hq hu hmarks hbody fun hl hb => (hs hl hb).2, ← List.append_assoc,
    ← List.append_assoc]
  refine (h indents indents').prepend fun a a' hp hp' ha => ?_
  rw [List.append_assoc, List.append_assoc]
  refine .signs hu (.literal hq hbody (fun hl hb => ?_) ha)
  exact ⟨fun hh => (hs hl hb).1 (head?_eq_of_front hp q hh),
    fun hh => (hs hl hb).2 (head?_eq_of_front hp' q hh)⟩

theorem SameFrom.gap {g g' : List Char} (hg : Gap g) (hg' : Gap g') (hne : g ≠ []) (hne' : g' ≠ [])
    (hs : Bare s) (hs' : Bare s') (hrest : Relaid k [] s s') (h : SameFrom k s s') :
    SameFrom k (g ++ s) (g' ++ s') := by
  intro indents indents'
  have hpass : Passes ⟨k.length, false, indents⟩ g s _ :=
    guardAt_gap hg hs hrest.head?_ne (.inl rfl) rfl
  have hpass' : Passes ⟨k.length, false, indents'⟩ g' s' _ :=
    guardAt_gap hg' hs' hrest.symm.head?_ne (.inl rfl) rfl
  obtain hl | ⟨open₁, hl⟩ := hpass
  · rw [hl]
    exact .left _
  obtain hr | ⟨open₂, hr⟩ := hpass'
  · rw [hr]
    exact .right _
  rw [hl, hr]
  refine (h open₁ open₂).prepend fun a a' hp hp' ha => .gap hg hg' hne hne' ?_ ?_ ha
  · exact fun c hc => hs c (head?_eq_of_front hp c hc)
  · exact fun c hc => hs' c (head?_eq_of_front hp' c hc)

/-- The next piece of a run of signs opens the guard in both layouts, or stands in front of it. -/
theorem SameFrom.signs {u t t' : List Char} (hu : ∀ c ∈ u, isSign c = true) (hne : u ≠ [])
    (h : Relaid k [] t t') (hstop : Stops t) (hstop' : Stops t')
    (hmark : Piece.marks u = true → t.head?.filter Piece.isQuote = none)
    (hmark' : Piece.marks u = true → t'.head?.filter Piece.isQuote = none)
    (hrest : ∀ v, v <:+ u → v.length < u.length → SameFrom k (v ++ t) (v ++ t')) :
    SameFrom k (u ++ t) (u ++ t') := by
  have hquote {t : List Char} (hstop : Stops t)
      (hmark : Piece.marks u = true → t.head?.filter Piece.isQuote = none) :
      Piece.quoteAt? (u ++ t) = none := by
    rw [Piece.quoteAt?_append hstop hu hne]
    split
    · next hm => exact hmark hm
    · rfl
  replace hmark := hquote hstop hmark
  replace hmark' := hquote hstop' hmark'
  obtain ⟨kind, n, hpos, hle, hkind, hstep⟩ := Piece.exists_stepInLine_signs hu hne
  obtain ⟨a, v, rfl, rfl⟩ : ∃ a v, u = a ++ v ∧ a.length = n :=
    ⟨u.take n, u.drop n, (List.take_append_drop n u).symm, List.length_take_of_le hle⟩
  obtain ⟨ha, hv⟩ := List.forall_mem_append.mp hu
  have hdepth (d : Int) : (⟨kind, a⟩ : Piece).depthAfter d = d := by
    obtain rfl | rfl := hkind <;> rfl
  intro indents indents'
  have hguard {indents : List Nat} {t : List Char} (hstop : Stops t)
      (hmark : Piece.quoteAt? (a ++ v ++ t) = none) :
      guardAt .inLine ⟨k.length, false, indents⟩ (a ++ (v ++ t))
        = if (⟨kind, a⟩ : Piece) = guardWord ∧ (k.length : Int) = 0 then .ok (some [])
          else prepend a (guardAt .inLine ⟨k.length, false, indents⟩ (v ++ t)) := by
    have hfull := hstep ⟨k.length, false, indents⟩ t hstop hmark
    rw [← stepAt_inLine _ (List.append_ne_nil_of_left_ne_nil hne t), List.append_assoc] at hfull
    exact guardAt_step hfull (hdepth _)
  rw [List.append_assoc, List.append_assoc, hguard hstop hmark, hguard hstop' hmark']
  split
  · next hword =>
    obtain ⟨hword, hk⟩ := hword
    obtain rfl : a = ['i', 'f'] := congrArg Piece.text hword
    obtain rfl := List.eq_nil_of_length_eq_zero (Int.ofNat_eq_zero.mp hk)
    have hb := h.signs hv
    exact .found rfl rfl (.nil []) hb
  · have hlt : v.length < (a ++ v).length := by
      rw [List.length_append]
      omega
    exact (hrest v (List.suffix_append a v) hlt indents indents').prepend
      fun _ _ _ _ hrest => hrest.signs ha

/-- The guard starts in the same place of two layouts, if all lines of both fit. -/
theorem sameFrom_of_relaid (h : Relaid k [] s s') : SameFrom k s s' :=
  h.inductionOnTokens (fun u => Piece.marks u = true) (fun _ _ => .whole) .opener .closer .literal
    .gap .signs

/-- The first line of a text is not indented. -/
theorem Passes.start (hs : Bare s) (hcomment : s.head? ≠ some '#') :
    Passes ⟨0, false, [0]⟩ [] s (guardAt .lineStart ⟨0, false, [0]⟩ s) :=
  passes_line rfl rfl (by simp) hs hcomment

/-- In two layouts the text is split in the same place, unless a line of one does not fit. -/
theorem splitGuard_relaid (h : Relaid [] [] s s') (hs : Bare s) (hs' : Bare s') :
    splitGuard s = .error ⟨.malformed, none⟩ ∨ splitGuard s' = .error ⟨.malformed, none⟩
      ∨ (splitGuard s = .ok (s, none) ∧ splitGuard s' = .ok (s', none))
      ∨ ∃ a b a' b', splitGuard s = .ok (a, some b) ∧ splitGuard s' = .ok (a', some b')
        ∧ Relaid [] [] a a' ∧ Relaid [] [] b b' := by
  rw [splitGuard_eq_guardAt s, splitGuard_eq_guardAt s']
  obtain hl | ⟨indents, hl⟩ := Passes.start hs h.head?_ne
  · rw [hl]
    exact .inl rfl
  obtain hr | ⟨indents', hr⟩ := Passes.start hs' h.symm.head?_ne
  · rw [hr]
    exact .inr (.inl rfl)
  have hsame := sameFrom_of_relaid h indents indents'
  rw [hl, hr, prepend_nil, prepend_nil]
  generalize guardAt .inLine ⟨([] : List Bracket).length, false, indents⟩ s = r at hsame
  generalize guardAt .inLine ⟨([] : List Bracket).length, false, indents'⟩ s' = r' at hsame
  cases hsame with
  | left => exact .inl rfl
  | right => exact .inr (.inl rfl)
  | whole => exact .inr (.inr (.inl ⟨rfl, rfl⟩))
  | @found a a' b b' hs hs' ha hb =>
    have hdrop {s a b : List Char} (hs : s = a ++ 'i' :: 'f' :: b) : s.drop (a.length + 2) = b := by
      rw [hs, ← List.drop_drop, List.drop_left]
      rfl
    refine .inr (.inr (.inr ⟨a, b, a', b', ?_, ?_, ha, hb⟩))
    · dsimp only
      rw [hdrop hs]
    · dsimp only
      rw [hdrop hs']

end

end MarkupTemplate.Host
