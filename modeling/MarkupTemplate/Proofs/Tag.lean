import MarkupTemplate.Proofs.Name

/-!
# Tags and elements as texts

What the text of an attribute, of a start tag and of an element has to be like for the readers to
take it as a whole, wherever it stands.

* `EndsTag`: a text that ends in a closing sign, which meets every other text.
* `AttributeText`: a text that is read as an attribute, whatever stands in front of it.
* `readTagHead_run`, `readCloseTag_run`: the texts of a start tag and of a closing tag.
* `yields_selfClosing`, `yields_element`: the texts of elements.
-/
namespace MarkupTemplate

open Cursor Node

/-! ## Signs -/

theorem isBoundary_lt : Text.isBoundary '<' = true := by decide

theorem isBoundary_gt : Text.isBoundary '>' = true := by decide

theorem isBoundary_slash : Text.isBoundary '/' = true := by decide

/-- The end of a start tag. -/
def tagEnd (selfClosing : Bool) : List Char := if selfClosing then " />".toList else ">".toList

theorem atomsOf_lt : atomsOf "<".toList = [.leaf .punct "<" 0 1] := atomsOf_of_scan (by cbv)

theorem atomsOf_gt : atomsOf ">".toList = [.leaf .punct ">" 0 1] := atomsOf_of_scan (by cbv)

theorem atomsOf_closeSign : atomsOf "</".toList = [.leaf .punct "<" 0 1, .leaf .punct "/" 1 2] :=
  atomsOf_of_scan (by cbv)

theorem tokensOf_lt : tokensOf "<".toList = [.flat .lt "<" 0 1] := by
  rw [tokensOf, atomsOf_lt]; cbv

theorem tokensOf_closeSign : tokensOf "</".toList = [.flat .closeTag "</" 0 2] := by
  rw [tokensOf, atomsOf_closeSign]; cbv

theorem tokensOf_tagEnd (selfClosing : Bool) : ∃ t, tokensOf (tagEnd selfClosing) = [t]
    ∧ t.kind = if selfClosing then .selfClose else .gt := by
  cases selfClosing with
  | false => exact ⟨.flat .gt ">" 0 1, by rw [tagEnd, tokensOf]; cbv, rfl⟩
  | true => exact ⟨.flat .selfClose "/>" 1 3, by rw [tagEnd, tokensOf]; cbv, rfl⟩

theorem scans_tagEnd (selfClosing : Bool) : Scans (tagEnd selfClosing) := by
  cases selfClosing with
  | false => exact ⟨_, by cbv⟩
  | true => exact ⟨_, by cbv⟩

/-- The text ends in a closing sign, which is an atom of its own. -/
structure EndsTag (s : List Char) : Prop where
  char : s.getLast? = some '>'
  atom : ∃ pos stop, (atomsOf s).getLast? = some (.leaf .punct ">" pos stop)

theorem endsTag_gt : EndsTag ">".toList := ⟨rfl, 0, 1, by rw [atomsOf_gt]; rfl⟩

theorem endsTag_tagEnd (selfClosing : Bool) : EndsTag (tagEnd selfClosing) := by
  cases selfClosing with
  | false => exact endsTag_gt
  | true =>
    have hatoms : atomsOf " />".toList = [.leaf .punct "/" 1 2, .leaf .punct ">" 2 3] :=
      atomsOf_of_scan (by cbv)
    exact ⟨rfl, 2, 3, by rw [tagEnd, if_pos rfl, hatoms]; rfl⟩

theorem EndsTag.prepend {a s : List Char} (h : EndsTag s) (hs : Text.Seam a s) (ha : Scans a)
    (hsc : Scans s) : EndsTag (a ++ s) := by
  obtain ⟨hchar, pos, stop, hatom⟩ := h
  refine ⟨by rw [List.getLast?_append, hchar]; rfl, pos + a.length, stop + a.length, ?_⟩
  rw [getLast?_atomsOf_append hs ha hsc hatom, Atom.shift_leaf]

/-- A text that ends in a closing sign meets every text. -/
theorem EndsTag.meets {s : List Char} (h : EndsTag s) (t : List Char) : Meets s t := by
  obtain ⟨hchar, pos, stop, hatom⟩ := h
  refine ⟨fun x hx y _ => .inl ?_, .of_gt hatom⟩
  rw [hchar] at hx
  obtain rfl := Option.some.inj hx
  exact isBoundary_gt

/-- Every text meets a text that starts with `<`. -/
theorem meets_lt {s t : List Char} (ht : Scans t) : Meets s ("<".toList ++ t) := by
  have hhead : ((atomsOf ("<".toList ++ t)).map (Atom.shift s.length)).head?
      = some (.leaf .punct "<" (0 + s.length) (1 + s.length)) := by
    rw [atomsOf_append (a := "<".toList) (.of_last (a := []) isBoundary_lt) ⟨_, by cbv⟩ ht,
      atomsOf_lt]
    simp
  exact ⟨.of_head isBoundary_lt, .of_lt hhead⟩

/-! ## Attributes -/

/-- The text of an attribute, from the blank before it on: it is read as the attribute, which has no
offsets in it, and ends in no punctuation. -/
structure AttributeText (s : List Char) (a : Attribute) : Prop where
  blank : ∃ s', s = ' ' :: s'
  yields : Yields readAttribute s [a]
  head : ∃ t ts, tokensOf s = t :: ts ∧ isNameStart t = true ∧ 0 < t.pos
  last : ∀ x ∈ (atomsOf s).getLast?, ∀ value pos stop, x ≠ .leaf .punct value pos stop
  fixed : ∀ n, a.shift n = a

/-- The text of attributes and the end of their start tag. -/
def attributesText (attrs : List (List Char × Attribute)) (selfClosing : Bool) : List Char :=
  (attrs.map (·.1)).flatten ++ tagEnd selfClosing

theorem attributesText_cons (s : List Char) (a : Attribute) (attrs : List (List Char × Attribute))
    (selfClosing : Bool) :
    attributesText ((s, a) :: attrs) selfClosing = s ++ attributesText attrs selfClosing := by
  simp [attributesText]

/-- The text of attributes starts with a boundary. -/
theorem seam_attributesText {attrs : List (List Char × Attribute)} (selfClosing : Bool)
    (h : ∀ x ∈ attrs, AttributeText x.1 x.2) (s : List Char) :
    Text.Seam s (attributesText attrs selfClosing) := by
  cases attrs with
  | nil =>
    cases selfClosing with
    | false => exact .of_head (c := '>') (by decide)
    | true => exact .of_head (c := ' ') (by decide)
  | cons x attrs =>
    obtain ⟨s', hs'⟩ := (h x List.mem_cons_self).blank
    rw [attributesText_cons x.1 x.2, hs']
    exact .of_head (by decide)

theorem endsTag_attributesText {attrs : List (List Char × Attribute)} (selfClosing : Bool)
    (h : ∀ x ∈ attrs, AttributeText x.1 x.2) : Scans (attributesText attrs selfClosing)
      ∧ EndsTag (attributesText attrs selfClosing) := by
  induction attrs with
  | nil => exact ⟨scans_tagEnd selfClosing, endsTag_tagEnd selfClosing⟩
  | cons x attrs ih =>
    rw [List.forall_mem_cons] at h
    have hseam := seam_attributesText selfClosing h.2 x.1
    rw [attributesText_cons x.1 x.2]
    exact ⟨.append hseam h.1.yields.1 (ih h.2).1,
      (ih h.2).2.prepend hseam h.1.yields.1 (ih h.2).1⟩

theorem scans_attributesText {attrs : List (List Char × Attribute)} (selfClosing : Bool)
    (h : ∀ x ∈ attrs, AttributeText x.1 x.2) : Scans (attributesText attrs selfClosing) :=
  (endsTag_attributesText selfClosing h).1

/-- A text that ends in no punctuation meets the text of attributes. -/
theorem meets_attributesText {attrs : List (List Char × Attribute)} (selfClosing : Bool)
    (h : ∀ x ∈ attrs, AttributeText x.1 x.2) {s : List Char}
    (hs : ∀ x ∈ (atomsOf s).getLast?, ∀ value pos stop, x ≠ .leaf .punct value pos stop) :
    Meets s (attributesText attrs selfClosing) :=
  ⟨seam_attributesText selfClosing h s, .of_last hs⟩

theorem ne_punct_of_isNameStart {t : Token} (h : isNameStart t = true) : t.kind ≠ .punct := by
  intro hk
  simp [isNameStart, hk] at h

/-- The first token of the text of attributes goes on with nothing before it. -/
theorem head_attributesText {attrs : List (List Char × Attribute)} (selfClosing : Bool)
    (h : ∀ x ∈ attrs, AttributeText x.1 x.2) :
    ∃ t ts, tokensOf (attributesText attrs selfClosing) = t :: ts ∧ t.kind ≠ .punct
      ∧ (isSegment t = true → 0 < t.pos) := by
  cases attrs with
  | nil =>
    obtain ⟨t, ht, hk⟩ := tokensOf_tagEnd selfClosing
    refine ⟨t, [], ht, ?_, fun hseg => ?_⟩
    · rw [hk]; cases selfClosing <;> decide
    · cases selfClosing <;> simp [isSegment, isNameStart, hk] at hseg
  | cons x attrs =>
    rw [List.forall_mem_cons] at h
    obtain ⟨t, ts, ht, hstart, hpos⟩ := h.1.head
    rw [attributesText_cons x.1 x.2, tokensOf_append (meets_attributesText selfClosing h.2 h.1.last)
      h.1.yields.1 (scans_attributesText selfClosing h.2), ht]
    exact ⟨t, _, rfl, ne_punct_of_isNameStart hstart, fun _ => hpos⟩

theorem endsAttribute_attributesText {attrs : List (List Char × Attribute)} {selfClosing : Bool}
    (h : ∀ x ∈ attrs, AttributeText x.1 x.2) {W : Window} {tail : List Token} :
    W.EndsAttribute ((tokensOf (attributesText attrs selfClosing)).map
      (Token.shift (W.before'.length + W.text.length)) ++ tail) := by
  obtain ⟨t, ts, ht, hk, hpos⟩ := head_attributesText selfClosing h
  rw [ht]
  have hhas : ∀ value, (t.shift (W.before'.length + W.text.length)).has .punct value = false := by
    intro value
    simp [Token.has, hk]
  refine ⟨fun u hu => ?_, fun u hu => ?_⟩
  all_goals obtain rfl := Option.some.inj hu
  · refine ⟨by simp [isSeparator, hhas], fun hseg => ?_⟩
    have hseg' : isSegment t = true := by simpa [isSegment, isNameStart] using hseg
    have := hpos hseg'
    rw [Token.pos_shift]
    omega
  · exact hhas _

/-- A cursor before an attribute is not at the end of a start tag. -/
theorem isAt_of_readAttribute {c d : Cursor} {a : Attribute} (h : readAttribute c = .ok a d)
    {kind : TokenKind} (hk : kind ≠ .string ∧ kind ≠ .ident ∧ kind ≠ .keyword) :
    c.isAt kind = false := by
  obtain ⟨name, e, he, -⟩ := Window.bind_eq_ok h
  rw [← Bool.not_eq_true]
  intro hat
  have hkind := beq_iff_eq.mp hat
  obtain ⟨t, ts, hc, h⟩ := Window.readName_eq_ok_iff.mp he
  rw [Window.head_of_ahead hc] at hkind
  obtain ⟨hstring, -⟩ | ⟨hstart, -⟩ := h
  · exact hk.1 (hkind.symm.trans hstring)
  · simp [isNameStart, hkind, hk] at hstart

/-- The text of attributes and of the end of their start tag, wherever it stands. -/
theorem readAttributes_run {attrs : List (List Char × Attribute)} {selfClosing : Bool}
    (h : ∀ x ∈ attrs, AttributeText x.1 x.2) (name : String) (opening : Token) :
    ∀ {c : Cursor} {before after : List Char} {tail : List Token},
      c.At before (attributesText attrs selfClosing) after tail →
      ∃ d, readAttributes name opening c = .ok (attrs.map (·.2), selfClosing) d
        ∧ d.source = c.source ∧ d.ahead = tail := by
  induction attrs with
  | nil =>
    intro c before after tail hc
    obtain ⟨t, ht, hk⟩ := tokensOf_tagEnd selfClosing
    have hahead : c.ahead = t.shift before.length :: tail := by
      have ha := hc.ahead
      change c.ahead = (tokensOf (tagEnd selfClosing)).map _ ++ tail at ha
      rw [ha, ht]; rfl
    have hskip : (c.skip 1).ahead = tail := by simp [skip, hahead]
    have hat : ∀ kind, c.isAt kind = (t.kind == kind) := fun kind => by
      rw [isAt, Window.head_of_ahead hahead, Token.kind_shift]
    refine ⟨c.skip 1, ?_, rfl, hskip⟩
    rw [readAttributes]
    cases selfClosing with
    | false => rw [hat, hk]; rfl
    | true => rw [hat, hat, hk]; rfl
  | cons x attrs ih =>
    intro c before after tail hc
    rw [List.forall_mem_cons] at h
    obtain ⟨hx, h⟩ := h
    rw [attributesText_cons x.1 x.2] at hc
    have hmeets := meets_attributesText selfClosing h hx.last
    have hscans := scans_attributesText selfClosing h
    have hleft := hc.left hmeets hx.yields.1 hscans
    obtain ⟨d, hd, hds, hda⟩ := hx.yields.run local_readAttribute hleft
      (endsAttribute_attributesText h)
    have hright := hc.right hds hda
    obtain ⟨e, he, hes, hea⟩ := ih h hright
    rw [List.map_cons, List.map_nil, hx.fixed] at hd
    cases hd with
    | cons hd hnil =>
      cases hnil
      refine ⟨e, ?_, hes.trans hds, hea⟩
      rw [Window.readAttributes_eq, isAt_of_readAttribute hd (by decide),
        isAt_of_readAttribute hd (by decide), isAt_of_readAttribute hd (by decide)]
      simp only [Bool.false_eq_true, if_false]
      rw [Window.bind_of_ok hd, Window.bind_of_ok he]
      rfl

/-! ## Tags -/

/-- A name stands apart from the sign before it. -/
theorem PlainName.meets_sign {n : String} (hn : PlainName n) {s t : List Char} {c : Char}
    (hc : Text.isBoundary c = true) (ht : Scans t) (hs : Text.Seam n.toList t) :
    Meets (s ++ [c]) (n.toList ++ t) := by
  obtain ⟨value, pos, stop, as, has⟩ := hn.head_atom
  refine ⟨.of_last hc, .of_head fun b hb => ?_⟩
  rw [atomsOf_append hs hn.scans ht, has] at hb
  obtain rfl := Option.some.inj hb
  simp

/-- The text of a start tag. -/
def tagText (n : String) (attrs : List (List Char × Attribute)) (selfClosing : Bool) : List Char :=
  "<".toList ++ (n.toList ++ attributesText attrs selfClosing)

/-- The text of a closing tag. -/
def closeTagText (m : String) : List Char := "</".toList ++ (m.toList ++ ">".toList)

theorem seam_lt (s : List Char) : Text.Seam "<".toList s := .of_last (a := []) isBoundary_lt

theorem scans_lt : Scans "<".toList := ⟨_, by cbv⟩

theorem endsTag_tagText {n : String} (hn : PlainName n) {attrs : List (List Char × Attribute)}
    (selfClosing : Bool) (h : ∀ x ∈ attrs, AttributeText x.1 x.2) :
    Scans (tagText n attrs selfClosing) ∧ EndsTag (tagText n attrs selfClosing) := by
  obtain ⟨hscans, hends⟩ := endsTag_attributesText selfClosing h
  have hseam := seam_attributesText selfClosing h n.toList
  have hscans' := Scans.append hseam hn.scans hscans
  exact ⟨.append (seam_lt _) scans_lt hscans',
    (hends.prepend hseam hn.scans hscans).prepend (seam_lt _) scans_lt hscans'⟩

theorem seam_closeSign (s : List Char) : Text.Seam "</".toList s :=
  .of_last (a := ['<']) isBoundary_slash

theorem scans_closeSign : Scans "</".toList := ⟨_, by cbv⟩

theorem seam_gt (s : List Char) : Text.Seam s ">".toList := .of_head (b := []) isBoundary_gt

theorem scans_gt : Scans ">".toList := ⟨_, by cbv⟩

theorem endsTag_closeTagText {m : String} (hm : PlainName m) :
    Scans (closeTagText m) ∧ EndsTag (closeTagText m) := by
  have hscans := Scans.append (seam_gt _) hm.scans scans_gt
  exact ⟨.append (seam_closeSign _) scans_closeSign hscans,
    (endsTag_gt.prepend (seam_gt _) hm.scans scans_gt).prepend (seam_closeSign _) scans_closeSign
      hscans⟩

/-- A name wherever it stands. -/
theorem PlainName.run {n : String} (hn : PlainName n) {c : Cursor} {before after : List Char}
    {tail : List Token} (hc : c.At before n.toList after tail)
    (hP : Window.EndsName ⟨[], n.toList, [], before, after⟩ tail) :
    ∃ d, readName c = .ok n d ∧ d.source = c.source ∧ d.ahead = tail := by
  obtain ⟨d, hd, hds, hda⟩ := hn.yields.run local_readName hc hP
  cases hd with
  | cons hd hnil =>
    cases hnil
    exact ⟨d, hd, hds, hda⟩

/-- The next token, when the cursor has one before it and then the rest of a text. -/
theorem expectKind_run (kind : TokenKind) {c : Cursor} {before s t after : List Char}
    {tail : List Token}
    (hc : c.At before (s ++ t) after tail) (hm : Meets s t) (hs : Scans s) (ht : Scans t)
    {u : Token} (hu : tokensOf s = [u]) (hk : u.kind = kind) :
    ∃ d, expectKind kind c = .ok (u.shift before.length) d ∧ d.source = c.source
      ∧ d.At (before ++ s) t after tail := by
  have hleft := (hc.left hm hs ht).ahead
  rw [hu] at hleft
  have hhead : c.head = u.shift before.length := Window.head_of_ahead hleft
  refine ⟨c.skip 1, ?_, rfl, hc.right rfl ?_⟩
  · rw [expectKind, Window.bind_of_ok (show next c = .ok c.head (c.skip 1) from rfl), hhead,
      if_pos ((Token.kind_shift ..).trans hk)]
    rfl
  · rw [skip, hleft]; rfl

/-- The text of a start tag, wherever it stands. -/
theorem readTagHead_run {n : String} (hn : PlainName n) {attrs : List (List Char × Attribute)}
    {selfClosing : Bool} (h : ∀ x ∈ attrs, AttributeText x.1 x.2) {c : Cursor}
    {before after : List Char} {tail : List Token}
    (hc : c.At before (tagText n attrs selfClosing) after tail) :
    ∃ opening d, readTagHead c = .ok ⟨n, attrs.map (·.2), selfClosing, opening⟩ d
      ∧ d.source = c.source ∧ d.ahead = tail := by
  have hscans := scans_attributesText selfClosing h
  have hseam := seam_attributesText selfClosing h n.toList
  obtain ⟨d, hd, hds, hright⟩ := expectKind_run .lt hc
    (hn.meets_sign (s := []) isBoundary_lt hscans hseam) scans_lt
    (.append hseam hn.scans hscans) tokensOf_lt rfl
  have hmeets := meets_attributesText selfClosing h hn.last_atom
  obtain ⟨e, he, hes, hea⟩ := hn.run (hright.left hmeets hn.scans hscans)
    (endsAttribute_attributesText h).1
  obtain ⟨f, hf, hfs, hfa⟩ := readAttributes_run h n
    (.shift before.length (.flat .lt "<" 0 1)) (hright.right hes hea)
  refine ⟨.shift before.length (.flat .lt "<" 0 1), f, ?_, hfs.trans (hes.trans hds), hfa⟩
  rw [readTagHead, Window.bind_of_ok hd, Window.bind_of_ok he, Window.bind_of_ok hf]; rfl

theorem tokensOf_gt : tokensOf ">".toList = [.flat .gt ">" 0 1] := by
  rw [tokensOf, atomsOf_gt]; cbv

/-- A sign of markup stands clear of what is before it. -/
theorem clear_of_kind (kind : TokenKind) {W : Window} {t : Token} {ts : List Token}
    (ht : t.kind = kind)
    (hk : kind ≠ .punct ∧ kind ≠ .ident ∧ kind ≠ .keyword ∧ kind ≠ .number) :
    W.Clear (t :: ts) := by
  subst ht
  refine ⟨⟨fun u hu => ?_, fun u hu => ?_⟩, fun u hu => ?_⟩
  all_goals obtain rfl := Option.some.inj hu
  all_goals simp [isSeparator, isSegment, isNameStart, Token.has, hk]

/-- The text of a closing tag, wherever it stands. -/
theorem readCloseTag_run {m : String} (hm : PlainName m) {c : Cursor} {before after : List Char}
    {tail : List Token} (hc : c.At before (closeTagText m) after tail) :
    ∃ d, readCloseTag c = .ok m d ∧ d.source = c.source ∧ d.ahead = tail := by
  obtain ⟨d, hd, hds, hright⟩ := expectKind_run .closeTag hc
    (hm.meets_sign (s := ['<']) isBoundary_slash scans_gt (seam_gt _)) scans_closeSign
    (.append (seam_gt _) hm.scans scans_gt) tokensOf_closeSign rfl
  have hmeets : Meets m.toList ">".toList := ⟨seam_gt _, .of_last hm.last_atom⟩
  have hclear : Window.Clear ⟨[], m.toList, [], before ++ "</".toList, ">".toList ++ after⟩
      ((tokensOf ">".toList).map (Token.shift ((before ++ "</".toList).length + m.toList.length))
        ++ tail) := by
    rw [tokensOf_gt]
    exact clear_of_kind .gt rfl (by decide)
  obtain ⟨e, he, hes, hea⟩ := hm.run (hright.left hmeets hm.scans scans_gt) hclear.1.1
  rw [tokensOf_gt, List.map_cons, List.map_nil, List.cons_append, List.nil_append] at hea
  refine ⟨e.skip 1, ?_, hes.trans hds, by rw [skip, hea]; rfl⟩
  rw [readCloseTag, Window.bind_of_ok hd, Window.bind_of_ok he,
    Window.bind_of_ok (show next e = .ok e.head (e.skip 1) from rfl), Window.head_of_ahead hea]
  rfl

/-! ## Elements -/

theorem head_closeTagText {m : String} (hm : PlainName m) :
    ∃ ts, tokensOf (closeTagText m) = .flat .closeTag "</" 0 2 :: ts := by
  have hmeets := hm.meets_sign (s := ['<']) isBoundary_slash scans_gt (seam_gt _)
  have htokens := tokensOf_append hmeets scans_closeSign (.append (seam_gt _) hm.scans scans_gt)
  change tokensOf (closeTagText m) = tokensOf "</".toList ++ _ at htokens
  rw [tokensOf_closeSign] at htokens
  exact ⟨_, htokens⟩

/-- The text of a closing tag stands clear of what is before it. -/
theorem clear_closeTagText {m : String} (hm : PlainName m) {W : Window} {n : Nat}
    {tail : List Token} : W.Clear ((tokensOf (closeTagText m)).map (Token.shift n) ++ tail) := by
  obtain ⟨ts, hts⟩ := head_closeTagText hm
  rw [hts]
  exact clear_of_kind .closeTag rfl (by decide)

theorem isAt_closeTagText {m : String} (hm : PlainName m) {c : Cursor} {before after : List Char}
    {tail : List Token} (hc : c.At before (closeTagText m) after tail) :
    c.isAt .closeTag = true := by
  obtain ⟨ts, hts⟩ := head_closeTagText hm
  have h := hc.ahead
  rw [hts] at h
  rw [isAt, Window.head_of_ahead h]
  rfl

theorem isAt_tagText {n : String} (hn : PlainName n) {attrs : List (List Char × Attribute)}
    {selfClosing : Bool} (h : ∀ x ∈ attrs, AttributeText x.1 x.2) {c : Cursor}
    {before after : List Char} {tail : List Token}
    (hc : c.At before (tagText n attrs selfClosing) after tail) : c.head.kind = .lt := by
  have hscans := scans_attributesText selfClosing h
  have hseam := seam_attributesText selfClosing h n.toList
  have hleft := (hc.left (hn.meets_sign (s := []) isBoundary_lt hscans hseam) scans_lt
    (.append hseam hn.scans hscans)).ahead
  change c.ahead = (tokensOf "<".toList).map _ ++ _ at hleft
  rw [tokensOf_lt] at hleft
  rw [Window.head_of_ahead hleft]
  rfl

/-- A start tag that closes itself is an element. -/
theorem yields_selfClosing {n : String} (hn : PlainName n) {attrs : List (List Char × Attribute)}
    (h : ∀ x ∈ attrs, AttributeText x.1 x.2) :
    Yields readNode (tagText n attrs true) [.element n (attrs.map (·.2)) true [] none] := by
  have hat := at_ofText (tagText n attrs true)
  obtain ⟨opening, d, hd, -, hda⟩ := readTagHead_run hn h hat
  refine ⟨(endsTag_tagText hn _ h).1, d, .cons ?_ .nil, hda⟩
  rw [readNode_eq, isAt_tagText hn h hat]
  change readElement _ = _
  rw [readElement, Window.bind_of_ok hd]
  rfl

/-- The text of an element with a closing tag. -/
def elementText (n : String) (attrs : List (List Char × Attribute)) (s : List Char) (m : String) :
    List Char := tagText n attrs false ++ (s ++ closeTagText m)

/-- The text of a body meets the text of a closing tag. -/
theorem meets_closeTagText {m : String} (hm : PlainName m) (s : List Char) :
    Meets s (closeTagText m) :=
  meets_lt (t := "/".toList ++ (m.toList ++ ">".toList))
    (.append (.of_last (a := []) isBoundary_slash) ⟨_, by cbv⟩
      (.append (seam_gt _) hm.scans scans_gt))

theorem endsTag_elementText {n m : String} (hn : PlainName n) (hm : PlainName m)
    {attrs : List (List Char × Attribute)} (h : ∀ x ∈ attrs, AttributeText x.1 x.2)
    {s : List Char} (hs : Scans s) :
    Scans (elementText n attrs s m) ∧ EndsTag (elementText n attrs s m) := by
  obtain ⟨hopen, hopens⟩ := endsTag_tagText hn false h
  obtain ⟨hclose, hcloses⟩ := endsTag_closeTagText hm
  have hseam := (meets_closeTagText hm s).seam
  have hrest := Scans.append hseam hs hclose
  have hseam' := (hopens.meets (s ++ closeTagText m)).seam
  exact ⟨.append hseam' hopen hrest,
    (hcloses.prepend hseam hs hclose).prepend hseam' hopen hrest⟩

theorem head_elementText {n m : String} (hn : PlainName n) (hm : PlainName m)
    {attrs : List (List Char × Attribute)} (h : ∀ x ∈ attrs, AttributeText x.1 x.2)
    {s : List Char} (hs : Scans s) : (Cursor.ofText (elementText n attrs s m)).head.kind = .lt := by
  obtain ⟨hopen, hopens⟩ := endsTag_tagText hn false h
  have hrest := Scans.append (meets_closeTagText hm s).seam hs (endsTag_closeTagText hm).1
  exact isAt_tagText hn h ((at_ofText (elementText n attrs s m)).left (hopens.meets _) hopen hrest)

/-- A start tag, nodes and a closing tag are an element. -/
theorem yields_element {n m : String} (hn : PlainName n) (hm : PlainName m)
    {attrs : List (List Char × Attribute)} (h : ∀ x ∈ attrs, AttributeText x.1 x.2)
    {s : List Char} {nodes : List Node} (hs : Yields readNode s nodes) :
    Yields readNode (elementText n attrs s m) [.element n (attrs.map (·.2)) false
      (nodes.map (Node.shift (tagText n attrs false).length)) (some m)] := by
  have hat := at_ofText (elementText n attrs s m)
  obtain ⟨hopen, hopens⟩ := endsTag_tagText hn false h
  have hclose := (endsTag_closeTagText hm).1
  have hbody := meets_closeTagText hm s
  have hleft := hat.left (hopens.meets _) hopen (.append hbody.seam hs.1 hclose)
  obtain ⟨opening, d, hd, hds, hda⟩ := readTagHead_run hn h hleft
  have hright := hat.right hds hda
  obtain ⟨e, he, hes, hea⟩ := hs.run local_readNode (hright.left hbody hs.1 hclose)
    (clear_closeTagText hm)
  have hlast := hright.right hes hea
  obtain ⟨f, hf, -, hfa⟩ := readCloseTag_run hm hlast
  have hchildren := readNodes_some_of_items (t := opening) he (isAt_closeTagText hm hlast)
  refine ⟨(endsTag_elementText hn hm h hs.1).1, f, .cons ?_ .nil, hfa⟩
  rw [readNode_eq, head_elementText hn hm h hs.1]
  change readElement _ = _
  rw [readElement, Window.bind_of_ok hd, if_neg Bool.false_ne_true, Window.bind_of_ok hchildren,
    Window.bind_of_ok hf]
  rfl

end MarkupTemplate
