import MarkupTemplate.Proofs.Cursor.Takes
import MarkupTemplate.Proofs.Token.Longest

/-!
# Names are as long as they can be

A name without quotes is a word, and then separators and segments in turn, all touching. It is
returned as it stands in the text, and no longer sequence of the tokens ahead has that form.

* `NameForm`: the form of a name without quotes.
* `NameRest`: the same, for the pairs behind some place of a name.
* `NameRest.le_nameLength`: no longer sequence goes on with a name.
* `NameForm.join_eq`: a name is a slice of the text.
* `readName_longest`: what is read as a name, whatever comes.
-/
namespace MarkupTemplate

open Cursor

/-! ## The form of a name -/

/-- A token and pairs of tokens behind it, one after the other. -/
def nameTokens (first : Token) (pairs : List (Token × Token)) : List Token :=
  first :: pairs.flatMap fun p => [p.1, p.2]

/-- Touching tokens of the form of a name: a word, and then pairs of a separator and a segment. A
colon is only the first separator. -/
structure NameForm (first : Token) (pairs : List (Token × Token)) : Prop where
  word : first.kind = .ident ∨ first.kind = .keyword
  separator : ∀ p ∈ pairs, p.1.kind = .punct
    ∧ (p.1.value = "-" ∨ p.1.value = "." ∨ p.1.value = ":")
  segment : ∀ p ∈ pairs, p.2.kind = .ident ∨ p.2.kind = .keyword ∨ p.2.kind = .number
  colon : ∀ p ∈ pairs.tail, p.1.value ≠ ":"
  touch : (nameTokens first pairs).IsChain fun t u => t.stop = u.pos

theorem length_nameTokens (first : Token) (pairs : List (Token × Token)) :
    (nameTokens first pairs).length = 2 * pairs.length + 1 := by
  induction pairs with
  | nil => rfl
  | cons p pairs ih =>
    simp only [nameTokens, List.flatMap_cons, List.length_cons, List.length_append,
      List.length_nil] at ih ⊢
    omega

/-- A separator and a segment that go on with a name which ended at `last`. -/
structure Follows (colon : Bool) (last : Nat) (sep seg : Token) : Prop where
  separator : isSeparator sep = true
  touch : last = sep.pos
  colon : colon = true ∨ sep.value ≠ ":"
  segment : isSegment seg = true
  touch' : sep.stop = seg.pos

/-- Pairs that go on with a name which ended at `last`; a colon is only the first separator, if
one is allowed at all. -/
inductive NameRest : Bool → Nat → List (Token × Token) → Prop where
  | nil {colon : Bool} {last : Nat} : NameRest colon last []
  | cons {colon : Bool} {last : Nat} {sep seg : Token} {pairs : List (Token × Token)}
      (h : Follows colon last sep seg) (h' : NameRest false seg.stop pairs) :
      NameRest colon last ((sep, seg) :: pairs)

theorem isNameStart_iff {t : Token} : isNameStart t = true ↔ t.kind = .ident ∨ t.kind = .keyword := by
  simp [isNameStart]

theorem isSegment_iff {t : Token} :
    isSegment t = true ↔ t.kind = .ident ∨ t.kind = .keyword ∨ t.kind = .number := by
  simp [isSegment, isNameStart, or_assoc]

theorem isSeparator_iff {t : Token} : isSeparator t = true
    ↔ t.kind = .punct ∧ (t.value = "-" ∨ t.value = "." ∨ t.value = ":") := by
  simp only [isSeparator, Token.has, Bool.or_eq_true, Bool.and_eq_true, beq_iff_eq]
  tauto

theorem follows_iff {colon : Bool} {last : Nat} {sep seg : Token} :
    (isSeparator sep && sep.pos == last && (colon || sep.value != ":")
        && isSegment seg && seg.pos == sep.stop) = true ↔ Follows colon last sep seg := by
  simp only [Bool.and_eq_true, Bool.or_eq_true, beq_iff_eq, bne_iff_ne]
  constructor
  · rintro ⟨⟨⟨⟨hsep, hpos⟩, hcolon⟩, hseg⟩, hpos'⟩
    exact ⟨hsep, hpos.symm, hcolon, hseg, hpos'.symm⟩
  · rintro ⟨hsep, hpos, hcolon, hseg, hpos'⟩
    exact ⟨⟨⟨⟨hsep, hpos.symm⟩, hcolon⟩, hseg⟩, hpos'.symm⟩

/-- The form of a name, pair by pair. -/
theorem nameRest_iff {colon : Bool} {first : Token} {pairs : List (Token × Token)} :
    NameRest colon first.stop pairs ↔ (∀ p ∈ pairs, isSeparator p.1 = true)
      ∧ (∀ p ∈ pairs, isSegment p.2 = true) ∧ (colon = false → ∀ p ∈ pairs, p.1.value ≠ ":")
      ∧ (∀ p ∈ pairs.tail, p.1.value ≠ ":")
      ∧ (nameTokens first pairs).IsChain fun t u => t.stop = u.pos := by
  induction pairs generalizing colon first with
  | nil => exact ⟨fun _ => ⟨by simp, by simp, by simp, by simp, .singleton first⟩, fun _ => .nil⟩
  | cons p pairs ih =>
    obtain ⟨sep, seg⟩ := p
    simp only [nameTokens, List.flatMap_cons, List.cons_append, List.nil_append,
      List.isChain_cons_cons, List.forall_mem_cons, List.tail_cons]
    constructor
    · rintro (_ | ⟨h, h'⟩)
      obtain ⟨hsep, hseg, hcolon, -, htouch⟩ := ih.mp h'
      exact ⟨⟨h.separator, hsep⟩, ⟨h.segment, hseg⟩,
        fun hc => ⟨h.colon.resolve_left (by simp [hc]), hcolon rfl⟩, hcolon rfl, h.touch, h.touch',
        htouch⟩
    · rintro ⟨⟨hsep, hseps⟩, ⟨hseg, hsegs⟩, hcolon, htail, htouch, htouch', hchain⟩
      refine .cons ⟨hsep, htouch, ?_, hseg, htouch'⟩ (ih.mpr ⟨hseps, hsegs, fun _ => htail,
        fun p hp => htail p (List.mem_of_mem_tail hp), hchain⟩)
      cases colon with
      | true => exact .inl rfl
      | false => exact .inr (hcolon rfl).1

theorem nameForm_iff {first : Token} {pairs : List (Token × Token)} :
    NameForm first pairs ↔ isNameStart first = true ∧ NameRest true first.stop pairs := by
  rw [isNameStart_iff, nameRest_iff]
  simp only [isSeparator_iff, isSegment_iff]
  constructor
  · rintro ⟨hfirst, hsep, hseg, hcolon, htouch⟩
    exact ⟨hfirst, hsep, hseg, nofun, hcolon, htouch⟩
  · rintro ⟨hfirst, hsep, hseg, -, hcolon, htouch⟩
    exact ⟨hfirst, hsep, hseg, hcolon, htouch⟩

/-! ## The longest name -/

/-- What is read goes on with the name. -/
theorem nameRest_nameLength (colon : Bool) (last : Nat) (ts : List Token) :
    ∃ pairs, NameRest colon last pairs ∧ nameLength colon last ts = 2 * pairs.length
      ∧ pairs.flatMap (fun p => [p.1, p.2]) <+: ts := by
  fun_induction nameLength colon last ts with
  | case1 colon last sep seg ts h ih =>
    obtain ⟨pairs, hpairs, hlen, hfront⟩ := ih
    refine ⟨(sep, seg) :: pairs, .cons (follows_iff.mp h) hpairs, ?_, ?_⟩
    · rw [List.length_cons]
      omega
    · exact (List.prefix_cons_inj sep).mpr ((List.prefix_cons_inj seg).mpr hfront)
  | case2 => exact ⟨[], .nil, rfl, List.nil_prefix⟩
  | case3 => exact ⟨[], .nil, rfl, List.nil_prefix⟩

/-- No longer sequence goes on with the name. -/
theorem NameRest.le_nameLength {colon : Bool} {last : Nat} {pairs : List (Token × Token)}
    (h : NameRest colon last pairs) {ts : List Token}
    (hfront : pairs.flatMap (fun p => [p.1, p.2]) <+: ts) :
    2 * pairs.length ≤ nameLength colon last ts := by
  induction h generalizing ts with
  | nil => exact Nat.zero_le _
  | @cons colon last sep seg pairs hfollows _ ih =>
    obtain ⟨us, rfl⟩ := hfront
    have hrest : 2 * pairs.length ≤ nameLength false seg.stop _ := ih (List.prefix_append _ us)
    rw [List.flatMap_cons, List.append_assoc, List.cons_append, List.singleton_append, nameLength,
      if_pos (follows_iff.mpr hfollows), List.length_cons]
    exact Nat.add_le_add_right hrest 2

/-! ## The text of a name -/

theorem NameForm.kind {first : Token} {pairs : List (Token × Token)} (h : NameForm first pairs)
    {t : Token} (ht : t ∈ nameTokens first pairs) : t.kind ≠ .string ∧ t.isGroup = false := by
  have hkind : t.kind = .ident ∨ t.kind = .keyword ∨ t.kind = .number ∨ t.kind = .punct := by
    rcases List.mem_cons.mp ht with rfl | ht
    · rcases h.word with hk | hk <;> simp [hk]
    · obtain ⟨p, hp, ht⟩ := List.mem_flatMap.mp ht
      simp only [List.mem_cons, List.not_mem_nil, or_false] at ht
      rcases ht with rfl | rfl
      · simp [(h.separator p hp).1]
      · rcases h.segment p hp with hk | hk | hk <;> simp [hk]
  rcases hkind with hk | hk | hk | hk <;> simp [Token.isGroup, hk]

/-- The tokens of a name say together what stands in the text from the first to the last. -/
theorem NameForm.join_eq {text : List Char} {as : List Atom} (hs : Scanned text as) {first : Token}
    {pairs : List (Token × Token)} (h : NameForm first pairs)
    (hmem : ∀ t ∈ nameTokens first pairs, t ∈ classify as) {last : Token}
    (hlast : (nameTokens first pairs).getLast? = some last) :
    String.join ((nameTokens first pairs).map Token.value)
      = String.ofList (Text.slice text first.pos last.stop) := by
  have hle : ∀ t ∈ nameTokens first pairs, t.pos ≤ t.stop := fun t ht =>
    Nat.le_of_lt ((munched_classify as).pos_mem hs.inOrder (hmem t ht)).1
  have hslice := (Text.flatMap_slice (s := text) h.touch hle rfl hlast).2
  apply String.toList_inj.mp
  rw [String.toList_join, String.toList_ofList, List.flatMap_map, ← hslice]
  refine List.flatMap_congr fun t ht => ?_
  exact (hs.slice_eq (hmem t ht) (h.kind ht).1 (h.kind ht).2).symm

/-! ## Reading a name -/

/-- What reading a name does at a place of a text. -/
inductive NameReading (text : List Char) (c : Cursor) : Prop where
  /-- A literal is taken, and its decoded text returned. -/
  | literal {t : Token} {ts : List Token} (hahead : c.ahead = t :: ts) (hk : t.kind = .string)
      (h : readName c = .ok t.value (c.skip 1))
  /-- The longest sequence of tokens of the form of a name is taken, and returned as it stands. -/
  | name {first last : Token} {pairs : List (Token × Token)} (hform : NameForm first pairs)
      (hahead : nameTokens first pairs <+: c.ahead)
      (hlast : (nameTokens first pairs).getLast? = some last)
      (hlongest : ∀ first' pairs', NameForm first' pairs' → nameTokens first' pairs' <+: c.ahead →
        pairs'.length ≤ pairs.length)
      (h : readName c = .ok (String.ofList (Text.slice text first.pos last.stop))
        (c.skip (2 * pairs.length + 1)))
  /-- No name starts here, and the cursor stays. -/
  | fault (hhead : ∀ t ∈ c.ahead.head?, t.kind ≠ .string ∧ t.kind ≠ .ident ∧ t.kind ≠ .keyword)
      (h : readName c = .error ⟨.expectedName c.head, c.head.pos⟩ c)

/-- At any place of any token stream of a text, reading a name fails without moving, or takes a
literal, or takes the longest name and returns what stands in the text there. -/
theorem readName_longest {text : List Char} {as : List Atom} (hs : Scanned text as) {c : Cursor}
    (hc : c.ahead <:+ classify as) : NameReading text c := by
  cases hahead : c.ahead with
  | nil =>
    have hk := Window.head_kind_of_nil hahead
    refine .fault (by simp [hahead]) ?_
    unfold readName
    rw [if_neg (by simp [hk]), if_neg (by simp [isNameStart, hk])]
  | cons t ts =>
    have hhead : c.head = t := Window.head_of_ahead hahead
    by_cases hstring : t.kind = .string
    · refine .literal hahead hstring ?_
      unfold readName
      rw [hhead, if_pos hstring]
    by_cases hstart : isNameStart t = true
    · obtain ⟨pairs, hpairs, hlen, hfront⟩ := nameRest_nameLength true t.stop ts
      have hform : NameForm t pairs := nameForm_iff.mpr ⟨hstart, hpairs⟩
      have htokens : nameTokens t pairs <+: c.ahead := by
        rw [hahead]
        exact (List.prefix_cons_inj t).mpr hfront
      have htake := List.prefix_iff_eq_take.mp htokens
      rw [length_nameTokens] at htake
      obtain ⟨last, hlast⟩ : ∃ last, (nameTokens t pairs).getLast? = some last :=
        ⟨_, List.getLast?_cons⟩
      refine .name hform htokens hlast (fun first pairs' hform' htokens' => ?_) ?_
      · rw [hahead] at htokens'
        obtain ⟨rfl, hrest⟩ := List.cons_prefix_cons.mp htokens'
        have := (nameForm_iff.mp hform').2.le_nameLength hrest
        omega
      · have hmem : ∀ u ∈ nameTokens t pairs, u ∈ classify as := fun u hu =>
          hc.subset (htokens.subset hu)
        unfold readName
        rw [hhead, if_neg hstring, if_pos hstart, hahead, List.drop_succ_cons, List.drop_zero, hlen,
          ← hahead]
        dsimp only
        rw [← htake, hform.join_eq hs hmem hlast]
    · rw [isNameStart_iff, not_or] at hstart
      refine .fault (fun u hu => ?_) ?_
      · rw [hahead] at hu
        obtain rfl := Option.some.inj hu
        exact ⟨hstring, hstart⟩
      · unfold readName
        rw [hhead, if_neg hstring, if_neg (by simp [isNameStart, hstart])]

/-- A second colon ends a name. -/
theorem readName_longest_colon :
    Scanned "a:b:c".toList [.leaf .ident "a" 0 1, .leaf .punct ":" 1 2, .leaf .ident "b" 2 3,
        .leaf .punct ":" 3 4, .leaf .ident "c" 4 5]
      ∧ NameReading "a:b:c".toList (Cursor.ofTokens "a:b:c".toList
          [.flat .ident "a" 0 1, .flat .punct ":" 1 2, .flat .ident "b" 2 3,
            .flat .punct ":" 3 4, .flat .ident "c" 4 5]) := by
  have h : Scanned "a:b:c".toList [.leaf .ident "a" 0 1, .leaf .punct ":" 1 2,
      .leaf .ident "b" 2 3, .leaf .punct ":" 3 4, .leaf .ident "c" 4 5] :=
    .whole (show scan "a:b:c".toList 0 = .ok _ by cbv)
  have htokens : classify [.leaf .ident "a" 0 1, .leaf .punct ":" 1 2, .leaf .ident "b" 2 3,
      .leaf .punct ":" 3 4, .leaf .ident "c" 4 5] = [.flat .ident "a" 0 1, .flat .punct ":" 1 2,
        .flat .ident "b" 2 3, .flat .punct ":" 3 4, .flat .ident "c" 4 5] := by cbv
  exact ⟨h, readName_longest h (htokens ▸ List.suffix_refl _)⟩

/-- What is read of it. -/
example : readName (Cursor.ofTokens "a:b:c".toList [.flat .ident "a" 0 1, .flat .punct ":" 1 2,
    .flat .ident "b" 2 3, .flat .punct ":" 3 4, .flat .ident "c" 4 5])
    = .ok "a:b" ⟨"a:b:c".toList, 5, 3, [.flat .punct ":" 3 4, .flat .ident "c" 4 5]⟩ := by cbv

end MarkupTemplate
