import MarkupTemplate.Proofs.Cursor.Takes
import MarkupTemplate.Proofs.Token.Segment
import MarkupTemplate.Render

/-!
# Tags and literals

A template of literals and tags, told tag by tag. Its transcript is the text of each tag and each
literal as it is authored. What a renderer writes for a closing tag depends on the element that it
closes, hence the names of the open elements.

* `Authored`: a tag or a literal of a template; `Authored.text`: its transcript.
* `Authored.written`: what is written for tags and literals inside open elements.
* `Authored.written_eq_join`: the transcript, if no closing name is empty.
* `Transcribes`: the tags and literals that some tokens spell.
* `Transcribes.unique`: tokens spell one list of tags and literals only.
-/
namespace MarkupTemplate

open Cursor

/-! ## Tags and literals -/

/-- An attribute as it is authored: its name, and its value if it has one. -/
abbrev AuthoredAttribute := String × Option String

/-- A tag or a literal of a template. -/
inductive Authored where
  | literal (text : String)
  | start (name : String) (attributes : List AuthoredAttribute) (selfClosing : Bool)
  | close (name : String)

/-- The text of an attribute: a blank, its name and, quoted and escaped, its value. -/
def AuthoredAttribute.text : AuthoredAttribute → String
  | (name, none) => " " ++ name
  | (name, some value) => " " ++ name ++ "=\"" ++ Render.attributeText value ++ "\""

namespace Authored

/-- The transcript of a tag or a literal. -/
def text : Authored → String
  | literal s => s
  | start name attributes selfClosing =>
    "<" ++ name ++ String.join (attributes.map AuthoredAttribute.text)
      ++ if selfClosing then " />" else ">"
  | close name => "</" ++ name ++ ">"

/-- The elements that are open behind a tag, innermost first. -/
def opened : List String → Authored → List String
  | outer, start name _ false => name :: outer
  | _ :: outer, close _ => outer
  | outer, _ => outer

/-- What is written for a tag or a literal inside open elements. -/
def rendered : List String → Authored → String
  | name :: _, close other => text (close (Render.closingName name (some other)))
  | _, m => m.text

/-- What is written for tags and literals inside open elements. -/
def written : List String → List Authored → String
  | _, [] => ""
  | outer, m :: ms => m.rendered outer ++ written (m.opened outer) ms

/-- Without empty closing names, what is written is the transcript. -/
theorem written_eq_join {ms : List Authored} (h : ∀ name, close name ∈ ms → name ≠ "")
    (outer : List String) : written outer ms = String.join (ms.map text) := by
  induction ms generalizing outer with
  | nil => rfl
  | cons m ms ih =>
    have hm : m.rendered outer = m.text := by
      cases outer with
      | nil => rfl
      | cons n outer =>
        cases m with
        | close name =>
          have hne : name ≠ "" := h name List.mem_cons_self
          rw [rendered, Render.closingName, if_neg hne]
        | _ => rfl
    rw [written, hm, ih fun name hname => h name (List.mem_cons_of_mem _ hname), List.map_cons,
      String.join_cons]

end Authored

/-- The tokens of attributes that are bare or literals. -/
inductive SpellsAttributes : List Token → List AuthoredAttribute → Prop where
  | nil : SpellsAttributes [] []
  | bare {ns ts : List Token} {name : String} {attributes : List AuthoredAttribute}
      (hn : Name ns name) (h : SpellsAttributes ts attributes) :
      SpellsAttributes (ns ++ ts) ((name, none) :: attributes)
  | literal {eq value : Token} {ns ts : List Token} {name : String}
      {attributes : List AuthoredAttribute} (hn : Name ns name) (he : eq.has .punct "=" = true)
      (hl : value.isLiteral = true) (h : SpellsAttributes ts attributes) :
      SpellsAttributes (ns ++ eq :: value :: ts) ((name, some value.value) :: attributes)

/-- The tags and literals that some tokens spell, in order. -/
inductive Transcribes : List Token → List Authored → Prop where
  | nil : Transcribes [] []
  | literal {t : Token} {ts : List Token} {ms : List Authored} (hl : t.isLiteral = true)
      (h : Transcribes ts ms) : Transcribes (t :: ts) (.literal t.value :: ms)
  | start {lt last : Token} {ns as ts : List Token} {name : String}
      {attributes : List AuthoredAttribute} {selfClosing : Bool} {ms : List Authored}
      (hl : lt.kind = .lt) (hn : Name ns name) (ha : SpellsAttributes as attributes)
      (he : last.kind = if selfClosing then .selfClose else .gt) (h : Transcribes ts ms) :
      Transcribes (lt :: (ns ++ (as ++ last :: ts))) (.start name attributes selfClosing :: ms)
  | close {cs ts : List Token} {name : String} {ms : List Authored} (hc : CloseTag cs name)
      (h : Transcribes ts ms) : Transcribes (cs ++ ts) (.close name :: ms)

theorem Transcribes.append {ts us : List Token} {ms ns : List Authored} (h : Transcribes ts ms)
    (hs : Transcribes us ns) : Transcribes (ts ++ us) (ms ++ ns) := by
  induction h with
  | nil => exact hs
  | literal hl _ ih => exact .literal hl ih
  | start hl hn ha he _ ih => simpa using Transcribes.start hl hn ha he ih
  | close hc _ ih => simpa using Transcribes.close hc ih

/-! ## Tokens spell one transcript -/

/-- A name goes no further than its tokens if no separator follows them. -/
theorem nameLength_append {colon : Bool} {last : Nat} {ts us : List Token}
    (h : nameLength colon last ts = ts.length) (hu : ∀ t ∈ us.head?, isSeparator t = false) :
    nameLength colon last (ts ++ us) = ts.length := by
  fun_induction nameLength colon last ts with
  | case1 colon last sep seg ts hseg ih =>
    rw [List.cons_append, List.cons_append, nameLength, if_pos hseg]
    rw [ih (by simpa using h)]
    rfl
  | case2 colon last sep seg ts hseg => simp at h
  | case3 ts colon last hts =>
    cases ts with
    | nil =>
      cases us with
      | nil => rfl
      | cons sep us =>
        cases us with
        | nil => rfl
        | cons seg us =>
          rw [List.nil_append, nameLength, hu sep rfl]
          rfl
    | cons t ts => simp at h

theorem Name.head {ns : List Token} {name : String} (h : Name ns name) :
    ∃ t ts, ns = t :: ts ∧ t.kind ≠ .punct ∧ t.kind ≠ .gt ∧ t.kind ≠ .selfClose := by
  cases h with
  | @quoted t hk => exact ⟨t, [], rfl, by simp [hk]⟩
  | @plain t ts hs _ =>
    refine ⟨t, ts, rfl, ?_⟩
    rw [isNameStart, Bool.or_eq_true, beq_iff_eq, beq_iff_eq] at hs
    obtain hk | hk := hs <;> simp [hk]

/-- What follows a name decides where the name ends. -/
theorem Name.unique {ns ns' us us' : List Token} {name name' : String} (h : Name ns name)
    (h' : Name ns' name') (he : ns ++ us = ns' ++ us')
    (hu : ∀ t ∈ us.head?, isSeparator t = false) (hu' : ∀ t ∈ us'.head?, isSeparator t = false) :
    name = name' ∧ us = us' := by
  cases h with
  | @quoted t hk =>
    cases h' with
    | quoted hk' =>
      cases he
      exact ⟨rfl, rfl⟩
    | plain hs =>
      cases he
      rw [isNameStart, hk] at hs
      cases hs
  | @plain t ts hs hn =>
    cases h' with
    | quoted hk' =>
      cases he
      rw [isNameStart, hk'] at hs
      cases hs
    | @plain t' ts' hs' hn' =>
      injection he with ht he
      subst ht
      have hlength : ts.length = ts'.length := by
        rw [← nameLength_append hn hu, ← nameLength_append hn' hu']
        exact congrArg _ he
      obtain ⟨rfl, rfl⟩ := List.append_inj he hlength
      exact ⟨rfl, rfl⟩

/-- A token that is no punctuation is no separator. -/
theorem isSeparator_of_kind {t : Token} (hk : t.kind ≠ .punct) : isSeparator t = false := by
  simp [isSeparator, Token.has, hk]

/-- No separator is an equals sign. -/
theorem isSeparator_of_equals {t : Token} (h : t.has .punct "=" = true) :
    isSeparator t = false := by
  obtain ⟨hk, hv⟩ := Token.kind_of_has h
  simp [isSeparator, Token.has, hk, hv]

/-- No name starts with the end of a tag. -/
theorem Name.ne_last {ns us vs : List Token} {name : String} {last : Token} (h : Name ns name)
    (hl : last.kind = .gt ∨ last.kind = .selfClose) : last :: us ≠ ns ++ vs := by
  obtain ⟨t, ts, rfl, -, hgt, hself⟩ := h.head
  intro he
  obtain ⟨rfl, -⟩ := List.cons.inj he
  exact hl.elim hgt hself

namespace SpellsAttributes

variable {ts us : List Token} {attributes : List AuthoredAttribute} {last : Token}

/-- Behind attributes, a tag ends with a token that is no punctuation, and neither are the first
tokens of the attributes. -/
theorem head_kind (h : SpellsAttributes ts attributes)
    (hl : last.kind = .gt ∨ last.kind = .selfClose) :
    ∀ t ∈ (ts ++ last :: us).head?, t.kind ≠ .punct := by
  cases h with
  | nil =>
    rintro t ⟨⟩
    obtain hl | hl := hl <;> simp [hl]
  | bare hn _ | literal hn _ _ _ =>
    obtain ⟨u, vs, rfl, hk, -⟩ := hn.head
    rintro t ⟨⟩
    exact hk

/-- A name goes no further than the attributes behind it. -/
theorem head_isSeparator (h : SpellsAttributes ts attributes)
    (hl : last.kind = .gt ∨ last.kind = .selfClose) :
    ∀ t ∈ (ts ++ last :: us).head?, isSeparator t = false :=
  fun t ht => isSeparator_of_kind (h.head_kind hl t ht)

/-- Attributes do not start with an equals sign: the name before them has no value. -/
theorem ne_equals {eq : Token} {vs : List Token} (h : SpellsAttributes ts attributes)
    (hl : last.kind = .gt ∨ last.kind = .selfClose) (heq : eq.has .punct "=" = true) :
    ts ++ last :: us ≠ eq :: vs := by
  intro he
  have hhead : eq ∈ (ts ++ last :: us).head? := by rw [he]; rfl
  exact h.head_kind hl eq hhead (Token.kind_of_has heq).1

/-- The token that ends a tag decides where its attributes end. -/
theorem unique {ts' us' : List Token} {last' : Token} {attributes' : List AuthoredAttribute}
    (h : SpellsAttributes ts attributes) (h' : SpellsAttributes ts' attributes')
    (hl : last.kind = .gt ∨ last.kind = .selfClose)
    (hl' : last'.kind = .gt ∨ last'.kind = .selfClose)
    (he : ts ++ last :: us = ts' ++ last' :: us') :
    attributes = attributes' ∧ last = last' ∧ us = us' := by
  have heqsign {eq : Token} {vs : List Token} (heq : eq.has .punct "=" = true) :
      ∀ t ∈ (eq :: vs).head?, isSeparator t = false := by
    rintro t ⟨⟩
    exact isSeparator_of_equals heq
  induction h generalizing ts' attributes' with
  | nil =>
    cases h' with
    | nil =>
      cases he
      exact ⟨rfl, rfl, rfl⟩
    | bare hn _ | literal hn _ _ _ =>
      rw [List.append_assoc] at he
      exact absurd he (hn.ne_last hl)
  | @bare ns ts name attributes hn h ih =>
    cases h' with
    | nil =>
      rw [List.append_assoc] at he
      exact absurd he.symm (hn.ne_last hl')
    | @bare ns' ts' name' attributes' hn' h' =>
      rw [List.append_assoc, List.append_assoc] at he
      obtain ⟨rfl, he⟩ := hn.unique hn' he (h.head_isSeparator hl) (h'.head_isSeparator hl')
      obtain ⟨rfl, hlast, hus⟩ := ih h' he
      exact ⟨rfl, hlast, hus⟩
    | @literal eq value ns' ts' name' attributes' hn' heq hv h' =>
      rw [List.append_assoc, List.append_assoc] at he
      obtain ⟨-, he⟩ := hn.unique hn' he (h.head_isSeparator hl) (heqsign heq)
      exact absurd he (h.ne_equals hl heq)
  | @literal eq value ns ts name attributes hn heq hv h ih =>
    cases h' with
    | nil =>
      rw [List.append_assoc] at he
      exact absurd he.symm (hn.ne_last hl')
    | @bare ns' ts' name' attributes' hn' h' =>
      rw [List.append_assoc, List.append_assoc] at he
      obtain ⟨-, he⟩ := hn.unique hn' he (heqsign heq) (h'.head_isSeparator hl')
      exact absurd he.symm (h'.ne_equals hl' heq)
    | @literal eq' value' ns' ts' name' attributes' hn' heq' hv' h' =>
      rw [List.append_assoc, List.append_assoc] at he
      obtain ⟨rfl, hrest⟩ := hn.unique hn' he (heqsign heq) (heqsign heq')
      simp only [List.cons_append, List.cons.injEq] at hrest
      obtain ⟨-, rfl, hrest⟩ := hrest
      obtain ⟨rfl, hlast, hus⟩ := ih h' hrest
      exact ⟨rfl, hlast, hus⟩

end SpellsAttributes

/-- The sign that ends a closing tag decides where its name ends. -/
theorem CloseTag.unique {cs cs' us us' : List Token} {name name' : String} (h : CloseTag cs name)
    (h' : CloseTag cs' name') (he : cs ++ us = cs' ++ us') : name = name' ∧ us = us' := by
  obtain ⟨_, hn, hu⟩ := h
  obtain ⟨_, hn', hu'⟩ := h'
  have hgt {u : Token} {us : List Token} (hu : u.kind = .gt) :
      ∀ t ∈ (u :: us).head?, isSeparator t = false := by
    rintro t ⟨⟩
    exact isSeparator_of_kind (by simp [hu])
  simp only [List.cons_append, List.append_assoc, List.nil_append] at he
  obtain ⟨-, he⟩ := List.cons.inj he
  obtain ⟨hname, he⟩ := hn.unique hn' he (hgt hu) (hgt hu')
  exact ⟨hname, (List.cons.inj he).2⟩

theorem CloseTag.head {cs : List Token} {name : String} (h : CloseTag cs name) :
    ∃ t ts, cs = t :: ts ∧ t.kind = .closeTag := by
  obtain ⟨ht, _, _⟩ := h
  exact ⟨_, _, rfl, ht⟩

theorem kind_of_isLiteral {t : Token} (h : t.isLiteral = true) :
    t.kind ≠ .lt ∧ t.kind ≠ .closeTag := by
  rw [Token.isLiteral, Bool.or_eq_true, beq_iff_eq, beq_iff_eq] at h
  obtain h | h := h <;> simp [h]

namespace Transcribes

/-! The kind of the first token tells literals, start tags and closing tags apart. -/

theorem literal_inv {t : Token} {ts : List Token} {ms : List Authored}
    (h : Transcribes (t :: ts) ms) (hl : t.isLiteral = true) :
    ∃ ns, ms = .literal t.value :: ns ∧ Transcribes ts ns := by
  obtain ⟨hlt, hclose⟩ := kind_of_isLiteral hl
  generalize he : t :: ts = us at h
  cases h with
  | nil => cases he
  | literal _ h =>
    obtain ⟨rfl, rfl⟩ := List.cons.inj he
    exact ⟨_, rfl, h⟩
  | start hk _ _ _ _ =>
    obtain ⟨rfl, -⟩ := List.cons.inj he
    exact absurd hk hlt
  | close hc _ =>
    obtain ⟨u, us, rfl, hk⟩ := hc.head
    obtain ⟨rfl, -⟩ := List.cons.inj he
    exact absurd hk hclose

theorem start_inv {lt last : Token} {ns as ts : List Token} {name : String}
    {attributes : List AuthoredAttribute} {selfClosing : Bool} {ms : List Authored}
    (h : Transcribes (lt :: (ns ++ (as ++ last :: ts))) ms) (hk : lt.kind = .lt)
    (hn : Name ns name) (ha : SpellsAttributes as attributes)
    (hlast : last.kind = if selfClosing then .selfClose else .gt) :
    ∃ ms', ms = .start name attributes selfClosing :: ms' ∧ Transcribes ts ms' := by
  have hend {last : Token} {b : Bool}
      (hl : last.kind = if b then TokenKind.selfClose else .gt) :
      last.kind = .gt ∨ last.kind = .selfClose := by
    cases b <;> simp [hl]
  generalize hus : lt :: (ns ++ (as ++ last :: ts)) = us at h
  cases h with
  | nil => cases hus
  | literal hl _ =>
    obtain ⟨rfl, -⟩ := List.cons.inj hus
    exact absurd hk (kind_of_isLiteral hl).1
  | @start lt' last' ns' as' ts' name' attributes' selfClosing' ms' _ hn' ha' hlast' h' =>
    obtain ⟨-, he⟩ := List.cons.inj hus
    obtain ⟨rfl, he⟩ := hn.unique hn' he (ha.head_isSeparator (hend hlast))
      (ha'.head_isSeparator (hend hlast'))
    obtain ⟨rfl, rfl, rfl⟩ := ha.unique ha' (hend hlast) (hend hlast') he
    have hself : selfClosing' = selfClosing := by
      rw [hlast] at hlast'
      cases selfClosing <;> cases selfClosing' <;> first | rfl | cases hlast'
    exact ⟨ms', by rw [hself], h'⟩
  | close hc _ =>
    obtain ⟨u, us, rfl, hclose⟩ := hc.head
    obtain ⟨rfl, -⟩ := List.cons.inj hus
    exact absurd hclose (by simp [hk])

theorem close_inv {cs ts : List Token} {name : String} {ms : List Authored}
    (h : Transcribes (cs ++ ts) ms) (hc : CloseTag cs name) :
    ∃ ns, ms = .close name :: ns ∧ Transcribes ts ns := by
  generalize he : cs ++ ts = us at h
  obtain ⟨t, rest, hcs, hclose⟩ := hc.head
  cases h with
  | nil =>
    rw [hcs] at he
    cases he
  | literal hl _ =>
    rw [hcs] at he
    obtain ⟨rfl, -⟩ := List.cons.inj he
    exact absurd hclose (kind_of_isLiteral hl).2
  | start hk _ _ _ _ =>
    rw [hcs] at he
    obtain ⟨rfl, -⟩ := List.cons.inj he
    exact absurd hclose (by simp [hk])
  | close hc' h' =>
    obtain ⟨rfl, rfl⟩ := hc.unique hc' he
    exact ⟨_, rfl, h'⟩

/-- Tokens spell one list of tags and literals only. -/
theorem unique {ts us : List Token} {ms ns : List Authored} (h : Transcribes ts ms)
    (h' : Transcribes us ns) (he : ts = us) : ms = ns := by
  induction h generalizing us ns with
  | nil =>
    cases h' with
    | nil => rfl
    | literal _ _ | start _ _ _ _ _ => cases he
    | close hc _ =>
      obtain ⟨_, _, rfl, -⟩ := hc.head
      cases he
  | literal hl _ ih =>
    subst he
    obtain ⟨ns, rfl, hrest⟩ := h'.literal_inv hl
    rw [ih hrest rfl]
  | start hk hn ha hlast _ ih =>
    subst he
    obtain ⟨ns, rfl, hrest⟩ := h'.start_inv hk hn ha hlast
    rw [ih hrest rfl]
  | close hc _ ih =>
    subst he
    obtain ⟨ns, rfl, hrest⟩ := h'.close_inv hc
    rw [ih hrest rfl]

end Transcribes

end MarkupTemplate
