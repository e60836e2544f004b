import Mathlib.Data.List.TakeWhile
import MarkupTemplate.Proofs.Atom.Detached
import MarkupTemplate.Proofs.Node.Derivation
import MarkupTemplate.Proofs.Node.Layout

/-!
# Host code is handed on as it stands

Every fragment of host code in a parsed document is a piece of the text, cut out between tokens
that do not belong to it. Scanned by itself it has the atoms that it has in the text, at every
depth, and none of its tokens is one that ends such a fragment. Only the body of a closure in braces
is all that stands between the braces.

* `Fragment.Stands`: a fragment at its place in the text.
* `Cut.stands`: a fragment that is cut between tokens.
* `stands_of_ofText?`: the fragments of a document stand in its text in order.
-/
namespace MarkupTemplate

open Text (slice)

/-- A fragment of host code at its place in the text, between the offsets `a` and `b`. -/
inductive Fragment.Stands (text : List Char) : Fragment → Nat → Nat → Prop where
  /-- What stands there has no blank at its ends; the atoms that it has by itself are, moved to its
  place, neighbours on a level of the text; and no token of it ends a fragment of its role. -/
  | cut {role : Role} {s : String} {a b : Nat} {before atoms after : List Atom}
      (hslice : slice text a b = s.toList) (hne : s ≠ "") (hsolid : Text.Solid s.toList)
      (hlevel : Level text (before ++ (atoms.map (Atom.shift a) ++ after)))
      (hbefore : ∀ x ∈ before, x.stop ≤ a) (hafter : ∀ x ∈ after, b ≤ x.pos)
      (hscan : scan s.toList 0 = .ok atoms)
      (hclear : ∀ t ∈ classify atoms, role.stops t = false) : Stands text ⟨role, s⟩ a b
  /-- The statements of a closure in braces are all that stands in a group behind a bar. -/
  | braced {s : String} {bar bar' pos b : Nat} {before atoms after : List Atom}
      (hslice : slice text (pos + 1) b = s.toList) (hne : Text.isAllBlank s.toList = false)
      (hlevel : Level text (before ++ .leaf .punct "|" bar bar'
        :: .group .curly pos (b + 1) s (atoms.map (Atom.shift (pos + 1))) :: after))
      (hscan : scan s.toList 0 = .ok atoms) : Stands text ⟨.statements, s⟩ (pos + 1) b

/-! ## Cuts between tokens -/

/-- Behind a divider host code is detached. -/
theorem Makes.divides {as : List Atom} {t : Token} (h : Makes as t) (ht : t.isDivider = true) :
    ∃ z, as.getLast? = some z ∧ z.Divides := by
  cases h with
  | @leaf kind value pos stop =>
    refine ⟨_, rfl, ?_⟩
    cases kind with
    | ident =>
      cases hk : keywords.contains value with
      | true => exact .keyword hk
      | false =>
        rw [leafTokenKind, if_neg (by rw [hk]; decide)] at ht
        cases ht
    | string => exact .string
    | number => exact .number
    | punct =>
      have hall : [",", ";", "=", "|", ":"].all
          (fun v => v.toList.all fun c => !Scan.isWordPart c) = true := by decide
      have ht : [",", ";", "=", "|", ":"].contains value = true := ht
      exact .punct fun c hc => by
        simpa using List.all_eq_true.mp (List.all_eq_true.mp hall value (by simpa using ht)) c hc
  | marker hm hl hs =>
    obtain ⟨c, pos, hc, hlast⟩ := last_of_spelled? hs hl (List.cons_ne_nil _ _)
    have hall : markers.all (fun m => m.1.all fun c => !Scan.isWordPart c) = true := by
      decide
    refine ⟨_, hlast, .punct fun d hd => ?_⟩
    obtain rfl : d = c := by simpa [Char.toString] using hd
    simpa using List.all_eq_true.mp (List.all_eq_true.mp hall _ hm) d hc
  | group => exact ⟨_, rfl, .group⟩

@[simp] theorem Role.stops_shift (role : Role) (n : Nat) (t : Token) :
    role.stops (t.shift n) = role.stops t := by
  cases role <;> simp [Role.stops, Token.has]

/-- The tokens of a cut have their own source text, from the first to the last. -/
theorem sourceOf_eq {source : List Char} {ts : List Token} {t u : Token}
    (ht : ts.head? = some t) (hu : ts.getLast? = some u) :
    sourceOf source ts = String.ofList (Text.trim (slice source t.pos u.stop)) := by
  simp only [sourceOf, Cursor.raw, Cursor.ofTokens, ht, hu]

theorem Text.trim_of_solid {u : List Char} (h : Solid u) : trim u = u := by
  have := trim_append (u := u) (v := []) (w := []) (by simp) (by simp) h.1 h.2
  rwa [List.nil_append, List.append_nil] at this

section

variable {text : List Char} {xs ts ys : List Token}

/-- The last atom before a row that a divider precedes is one that host code may follow. -/
theorem divides_of_left {as : List Atom} (h : ∀ t, (classify as).getLast? = some t →
    t.isDivider = true) : ∀ x, as.getLast? = some x → x.Divides := by
  intro x hx
  have hne : classify as ≠ [] := classify_ne_nil (List.ne_nil_of_mem (List.mem_of_getLast? hx))
  obtain ⟨A, B, rfl, hB⟩ := last_of_classify (List.getLast?_eq_some_getLast hne)
  obtain ⟨z, hz, hdiv⟩ := hB.divides (h _ (List.getLast?_eq_some_getLast hne))
  rw [List.getLast?_append, hz] at hx
  rwa [← Option.some.inj hx]

/-- The source text of tokens is the text of their atoms. -/
theorem sourceOf_classify {before as after : List Atom}
    (h : Level text (before ++ (as ++ after))) (hne : classify as ≠ []) :
    sourceOf text (classify as) = String.ofList (Text.ofAtoms text as) := by
  obtain ⟨t, u, a, z, ht, hu, ha, hz, hpos, hstop⟩ := ends_of_classify hne
  simp only [Text.ofAtoms, ha, hz]
  rw [sourceOf_eq ht hu, ← hpos, ← hstop, Text.trim_of_solid (h.neighbours ha hz).solid]

/-- A fragment that is cut between tokens stands where its tokens stand. -/
theorem Cut.stands {role : Role} {s : String} (hn : ¬ NumberTouchesString text)
    (h : Cut text role ts s) (hr : Row text xs ts ys)
    (hl : ∀ t, xs.getLast? = some t → t.isDivider = true) :
    ∃ t u, ts.head? = some t ∧ ts.getLast? = some u ∧ t.pos ≤ u.stop
      ∧ Fragment.Stands text ⟨role, s⟩ t.pos u.stop := by
  obtain ⟨hne, hclear, rfl⟩ := h
  obtain ⟨B, A, C, hlevel, rfl, rfl, -⟩ := hr.atoms
  obtain ⟨t, u, a, z, ht, hu, ha, hz, hpos, hstop⟩ := ends_of_classify hne
  refine ⟨t, u, ht, hu, ?_⟩
  have hnb := hlevel.neighbours ha hz
  have hsource : sourceOf text (classify A) = String.ofList (slice text a.pos z.stop) := by
    rw [sourceOf_classify hlevel hne, Text.ofAtoms, ha, hz]
  rw [hsource, ← hpos, ← hstop]
  obtain ⟨atoms, hscan, hatoms⟩ := hlevel.scan_slice ha hz
    (hlevel.detached hn ha hz (divides_of_left hl))
  refine ⟨Nat.le_of_lt hnb.lt,
    .cut ?_ ?_ ?_ (hatoms ▸ hlevel) hnb.before hnb.after ?_ fun v hv => ?_⟩
  · rw [String.toList_ofList]
  · intro he
    have := congrArg (List.length ∘ String.toList) he
    rw [Function.comp, String.toList_ofList, Text.length_slice hnb.le_length] at this
    have : z.stop - a.pos = 0 := this
    have := hnb.lt
    omega
  · rw [String.toList_ofList]
    exact hnb.solid
  · rwa [String.toList_ofList]
  · rw [← role.stops_shift a.pos]
    refine hclear _ ?_
    rw [← hatoms, classify_shift]
    exact List.mem_map_of_mem hv

/-! ## Expressions -/

/-- The inside of a group: its text, and its atoms in that part of the text. -/
theorem Row.interior {t : Token} (hr : Row text xs [t] ys) (hg : t.isGroup = true) :
    t.inner.toList = slice text (t.pos + 1) (t.stop - 1) ∧ t.pos + 1 ≤ t.stop - 1
      ∧ t.stop ≤ text.length ∧ ∃ children, classify children = t.children
        ∧ Level text children ∧ Partition text (t.pos + 1) (t.stop - 1) children := by
  obtain ⟨b, inner, children, as, hl, hm, ht⟩ := hr.group hg
  obtain ⟨lo, hi, hhi, ⟨-, bounds, -, shows, inside⟩, -⟩ := hl.partition
  have hstop : t.stop ≤ text.length := Nat.le_trans (bounds _ hm).2.2 hhi
  have hshows : slice text t.pos t.stop = b.opener :: (inner.toList ++ [b.closer]) :=
    (shows _ hm).1
  have hlen := congrArg List.length hshows
  rw [Text.length_slice hstop] at hlen
  simp only [List.length_cons, List.length_append, List.length_nil] at hlen
  refine ⟨?_, by omega, hstop, children, by rw [ht]; rfl, hl.inside hm, inside _ _ _ _ _ hm⟩
  rw [Text.slice_inside hstop hshows, show t.inner = inner by rw [ht]; rfl]

/-- The source of an expression is the part of the inside of its group before the first semicolon,
without the blanks at its ends. -/
theorem source_of_splitExpression {t : Token} {source : String} {spec : Option String}
    (h : Cursor.splitExpression t = .ok (source, spec)) :
    source ≠ "" ∧ source.toList = Text.trim
      (match (t.children.dropWhile fun u => !u.has .punct ";").head? with
        | some semi => t.inner.toList.take (semi.pos - (t.pos + 1))
        | none => t.inner.toList) := by
  unfold Cursor.splitExpression at h
  split at h
  · cases h
  have hsplit : (Cursor.splitSpec t).1 = Text.trim
      (match (t.children.dropWhile fun u => !u.has .punct ";").head? with
        | some semi => t.inner.toList.take (semi.pos - (t.pos + 1))
        | none => t.inner.toList) := by
    rw [← List.find?_eq_head?_dropWhile_not, Cursor.splitSpec]
    cases t.children.find? (·.has .punct ";") <;> rfl
  obtain ⟨src, sp⟩ := Cursor.splitSpec t
  dsimp only at h hsplit
  split at h
  · cases h
  next hne =>
  obtain ⟨rfl, -⟩ := Prod.mk.inj (Except.ok.inj h)
  rw [String.toList_ofList]
  refine ⟨fun he => hne ?_, hsplit⟩
  simpa using congrArg String.toList he

/-- The source of an expression is the source text of the tokens before the format spec. -/
theorem cut_of_splitExpression {t : Token} {source : String} {spec : Option String}
    (hr : Row text xs [t] ys) (hk : t.kind = .brace)
    (h : Cursor.splitExpression t = .ok (source, spec)) :
    ∃ ts us, t.children = ts ++ us ∧ Cut text .expression ts source := by
  obtain ⟨hinner, hle, hstop, children, hchildren, hl, hpart⟩ :=
    hr.interior (Token.isGroup_of_kind (b := .curly) hk)
  obtain ⟨hne, hsource⟩ := source_of_splitExpression h
  have hsplit := t.children.takeWhile_append_dropWhile (p := fun u => !u.has .punct ";")
  obtain ⟨A, C, rfl, hA, hC⟩ := classify_eq_append (hchildren.trans hsplit.symm)
  refine ⟨classify A, classify C, by rw [hA, hC, hsplit], ?_⟩
  rw [← hC, hinner] at hsource
  -- the atoms before the semicolon end before it, the others start there
  have hmid : source.toList = Text.ofAtoms text A := by
    rw [hsource]
    split
    · next semi hsemi =>
      obtain ⟨c, hc, hpos⟩ := head_of_classify hsemi
      obtain ⟨C, rfl⟩ := List.head?_eq_some_iff.mp hc
      have hn : Neighbours text A C c c := Partition.neighbours
        (show Partition text (t.pos + 1) (t.stop - 1) (A ++ ([c] ++ C)) from hpart) (by omega)
        rfl rfl
      obtain ⟨hlo, -, hhi⟩ := hpart.bounds c (by simp)
      have hlt := hn.first
      rw [← hpos, Text.take_slice hlo (by omega)]
      refine hpart.trim_slice hlo (by omega) (by omega) hn.before fun x hx => ?_
      rcases List.mem_cons.mp hx with rfl | hx
      · exact Nat.le_refl _
      · have := hn.after x hx
        omega
    · next hnone =>
      have hnil : C = [] := Classical.byContradiction fun hne =>
        classify_ne_nil hne (List.head?_eq_none_iff.mp hnone)
      exact hpart.trim_slice hle (Nat.le_refl _) (by omega)
        (fun a ha => (hpart.bounds a (List.mem_append_left C ha)).2.2) (by simp [hnil])
  have hne' : classify A ≠ [] := by
    intro he
    have hnil : A = [] := Classical.byContradiction fun hne => classify_ne_nil hne he
    rw [hnil] at hmid
    exact hne (String.toList_inj.mp hmid)
  refine ⟨hne', fun u hu => ?_, ?_⟩
  · rw [hA] at hu
    exact (Bool.not_eq_true' _).mp (List.all_eq_true.mp List.all_takeWhile u hu)
  · have hl : Level text ([] ++ (A ++ C)) := hl
    rw [sourceOf_classify hl hne', ← hmid, String.ofList_toList]

/-- The source of an expression is cut between tokens inside its group. -/
theorem Row.expression_cut {t : Token} {source : String} {spec : Option String} {lo hi : Nat}
    (hr : Row text xs [t] ys) (hk : t.kind = .brace)
    (h : Cursor.splitExpression t = .ok (source, spec)) (hb : Bounded lo hi [t]) :
    ∃ ts us, Row text [] ts us ∧ Cut text .expression ts source ∧ Bounded lo hi ts := by
  obtain ⟨ts, us, hchildren, hcut⟩ := cut_of_splitExpression hr hk h
  have hg := Token.isGroup_of_kind (b := .curly) hk
  have hrow := hr.inside hg
  have hbounded := hr.bounded_children hg hb
  rw [hchildren] at hrow hbounded
  exact ⟨ts, us ++ [], hrow.left, hcut, hbounded.1,
    fun u hu => hbounded.2 u (List.mem_append_left us hu)⟩

/-! ## Layouts of fragments -/

/-- The tokens of a fragment and its left neighbour. -/
inductive Fragment.Made (source : List Char) :
    Option Token → List Token → Fragment → Prop where
  | cut {left : Option Token} {ts : List Token} {role : Role} {s : String}
      (h : Cut source role ts s) (hl : ∀ t, left = some t → t.isDivider = true) :
      Made source left ts ⟨role, s⟩
  | expression {left : Option Token} {t : Token} {s : String} {spec : Option String}
      (hk : t.kind = .brace) (h : Cursor.splitExpression t = .ok (s, spec)) :
      Made source left [t] ⟨.expression, s⟩
  | braced {bar t : Token} (hb : bar.has .punct "|" = true) (hk : t.kind = .brace)
      (hs : Text.isAllBlank t.inner.toList = false) :
      Made source (some bar) [t] ⟨.statements, t.inner⟩

/-- Host code behind a divider. -/
theorem Fragment.Made.behind {role : Role} {s : String} {t : Token} (h : Cut text role ts s)
    (ht : t.isDivider = true) : Fragment.Made text (some t) ts ⟨role, s⟩ :=
  .cut h fun _ he => Option.some.inj he ▸ ht

theorem DerivesItems.laid {items : List (String × String)}
    (h : DerivesItems text ts items) : ∀ left,
    Laid (Fragment.Made text) left ts (items.map fun item => ⟨.item, item.2⟩) := by
  induction h with
  | nil => exact fun _ => .nil
  | last _ hc hs =>
    exact fun left => .skipOne (.skipOne (.single
      (.behind hs (Token.isDivider_of_punct hc (by decide)))))
  | cons _ hc hs _ _ ih =>
    exact fun left => .skipOne (.skipOne
      (.cons (.behind hs (Token.isDivider_of_punct hc (by decide))) (.skipOne (ih _))))

/-- The fragments of a spot lie in its tokens. -/
theorem Spot.Made.laid {s : Spot} {left : Option Token} (h : s.Made text left ts) :
    Laid (Fragment.Made text) left ts s.fragments := by
  obtain ⟨h, hb⟩ := h
  cases h with
  | expression hk he => exact .single (.expression hk (expressionOf_eq_ok_iff.mp he).1)
  | statements _ _ hbar hs =>
    exact .skipOne (.skipOne (.skipOne (.stay (.single
      (.behind hs (Token.isDivider_of_punct hbar (by decide)))))))
  | braced _ _ hbar hk hs => exact .skipOne (.skipOne (.skipOne (.single (.braced hbar hk hs))))
  | conditions hk h => exact .inside (Token.isGroup_of_kind (b := .square) hk) (h.laid none)
  | binding ht hp he hv =>
    exact .skipOne (.cons (.behind hp (Token.isDivider_of_keyword ht))
      (.skipOne (.stay (.single (.behind hv (Token.isDivider_of_punct he (by decide)))))))
  | condition _ h =>
    obtain ⟨t, rfl, hif⟩ := hb
    exact .single (.behind h (Token.isDivider_of_keyword hif))
  | pattern ht hp he hs =>
    exact .skipOne (.cons (.behind hp (Token.isDivider_of_keyword ht))
      (.skipOne (.single (.behind hs (Token.isDivider_of_punct he (by decide))))))
  | selection ht h => exact .skipOne (.single (.behind h (Token.isDivider_of_keyword ht)))
  | arm hp => exact .stay (.single (.cut hp hb))
  | loop ht hp hu hs =>
    exact .skipOne (.cons (.behind hp (Token.isDivider_of_keyword ht))
      (.skipOne (.single (.behind hs (Token.isDivider_of_keyword hu)))))

/-- A fragment stands between the offsets of its tokens. -/
theorem Cut.along {role : Role} {s : String} {lo hi : Nat} (hn : ¬ NumberTouchesString text)
    (h : Cut text role ts s) (hr : Row text xs ts ys)
    (hl : ∀ t, xs.getLast? = some t → t.isDivider = true) (hb : Bounded lo hi ts) :
    Along (Fragment.Stands text) lo [⟨role, s⟩] hi := by
  obtain ⟨t, u, ht, hu, hle, hstands⟩ := h.stands hn hr hl
  exact .cons (hb.2 t (List.mem_of_head? ht)).1 hstands hle
    (.nil (hb.2 u (List.mem_of_getLast? hu)).2)

theorem Fragment.Made.along {f : Fragment} {lo hi : Nat} (hn : ¬ NumberTouchesString text)
    (h : f.Made text xs.getLast? ts) (hr : Row text xs ts ys) (hb : Bounded lo hi ts) :
    Along (Fragment.Stands text) lo [f] hi := by
  generalize hleft : xs.getLast? = left at h
  cases h with
  | cut h hl => exact h.along hn hr (hleft ▸ hl) hb
  | expression hk h =>
    obtain ⟨ts, us, hrow, hcut, hbounded⟩ := hr.expression_cut hk h hb
    exact hcut.along hn hrow (by simp) hbounded
  | @braced bar t hbar hk hs =>
    have hg := Token.isGroup_of_kind (b := .curly) hk
    obtain ⟨hinner, hle, -, -⟩ := hr.interior hg
    obtain ⟨vs, rfl⟩ := List.getLast?_eq_some_iff.mp hleft
    obtain ⟨B, A, C, hlevel, hB, hA, -⟩ := hr.atoms
    obtain ⟨B, D, rfl, -, hD⟩ := classify_eq_append hB
    obtain ⟨hbark, hbarv⟩ := Token.kind_of_has hbar
    obtain rfl := (makes_of_classify hD).of_punct hbark
    obtain ⟨b, inner, children, rfl, he⟩ := (makes_of_classify hA).of_group hg
    obtain rfl : b = .curly := by
      rw [he] at hk
      cases b <;> first | rfl | cases hk
    obtain ⟨atoms, hscan, rfl⟩ := hlevel.scan_inside
      (List.mem_append_right _ (List.mem_append_left C List.mem_cons_self))
    have hval : t.inner = inner := by rw [he]; rfl
    rw [hval] at hs hinner ⊢
    have hts := hb.2 t List.mem_cons_self
    have hlevel : Level text (B ++ .leaf .punct "|" bar.pos bar.stop ::
        .group .curly t.pos (t.stop - 1 + 1) inner (atoms.map (Atom.shift (t.pos + 1))) ::
        C) := by
      rw [Nat.sub_add_cancel (by omega), ← hbarv]
      simpa using hlevel
    exact .cons (by omega) (.braced hinner.symm hs hlevel hscan) hle (.nil (by omega))

end

/-- The fragments of host code in a document stand in its text one after the other. -/
theorem stands_of_ofText? {text : List Char} {doc : Document}
    (h : Document.ofText? text = .ok doc) (hn : ¬ NumberTouchesString text) :
    Along (Fragment.Stands text) 0 (doc.spots.flatMap Spot.fragments) text.length := by
  obtain ⟨atoms, hscan, hd⟩ := derives_of_ofText? h
  obtain ⟨hrow, hbounded⟩ := row_of_scan hscan
  have hlaid : Laid (Spot.Made text) none (classify atoms) doc.spots := hd.laid none trivial
  exact (hlaid.flatMap fun _ _ _ hm => hm.laid).along (fun hr hm hb => hm.along hn hr hb) hrow rfl
    hbounded

/-- A binding and an expression: three fragments in order. -/
theorem stands_of_ofText?_binding :
    Document.ofText? "let a = b; \x7ba\x7d".toList
        = .ok ⟨[.binding "a" "b" 0, .expression ⟨"a", none, .text, 11⟩],
          "let a = b; \x7ba\x7d".toList⟩
      ∧ ¬ NumberTouchesString "let a = b; \x7ba\x7d".toList
      ∧ Along (Fragment.Stands "let a = b; \x7ba\x7d".toList) 0
        [⟨.pattern, "a"⟩, ⟨.value, "b"⟩, ⟨.expression, "a"⟩] 14 := by
  have h : Document.ofText? "let a = b; \x7ba\x7d".toList
      = .ok ⟨[.binding "a" "b" 0, .expression ⟨"a", none, .text, 11⟩],
        "let a = b; \x7ba\x7d".toList⟩ := by cbv
  have hscan : scan "let a = b; \x7ba\x7d".toList 0
      = .ok [.leaf .ident "let" 0 3, .leaf .ident "a" 4 5, .leaf .punct "=" 6 7,
        .leaf .ident "b" 8 9, .leaf .punct ";" 9 10,
        .group .curly 11 14 "a" [.leaf .ident "a" 12 13]] := by cbv
  -- no level of the text has a number
  have hlevel : ∀ {as}, Level "let a = b; \x7ba\x7d".toList as →
      as = [.leaf .ident "let" 0 3, .leaf .ident "a" 4 5, .leaf .punct "=" 6 7,
        .leaf .ident "b" 8 9, .leaf .punct ";" 9 10,
        .group .curly 11 14 "a" [.leaf .ident "a" 12 13]] ∨ as = [.leaf .ident "a" 12 13] := by
    intro as hl
    induction hl with
    | whole hs => exact .inl (Except.ok.inj (hs.symm.trans hscan))
    | inside _ hm ih => rcases ih with rfl | rfl <;> simp_all
  have hn : ¬ NumberTouchesString "let a = b; \x7ba\x7d".toList := by
    rintro ⟨before, after, number, string, pos, mid, stop, hl⟩
    have hm : Atom.leaf .number number pos mid
        ∈ before ++ .leaf .number number pos mid :: .leaf .string string mid stop :: after := by
      simp
    rcases hlevel hl with he | he <;> simp [he] at hm
  exact ⟨h, hn, stands_of_ofText? h hn⟩

end MarkupTemplate
