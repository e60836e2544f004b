import MarkupTemplate.Proofs.Atom.Literal
import MarkupTemplate.Proofs.Tag
import MarkupTemplate.Render

/-!
# Attributes as texts

A bare attribute, and an attribute with a literal value in double quotes, are read from the text
that is written for them, as long as no character of the value is escaped.

* `scan_quoted`: a literal in double quotes is one atom.
* `attributeText_bare`, `attributeText_literal`: the texts of attributes.
-/
namespace MarkupTemplate

open Cursor Node

/-! ## Literals in quotes -/

/-- True of a character that stands for itself in an attribute, both in the template and in the
output. -/
def isPlain (c : Char) : Bool := !"&<>\x27\"\\".toList.contains c

theorem replaceChar_of_not_mem {c : Char} {entity : String} {text : List Char} (h : c ∉ text) :
    Escape.replaceChar c entity text = text := by
  induction text with
  | nil => rfl
  | cons d text ih =>
    rw [List.mem_cons, not_or] at h
    have hd : ¬ d = c := fun hd => h.1 hd.symm
    rw [Escape.replaceChar, List.flatMap_cons, if_neg hd]
    exact congrArg (d :: ·) (ih h.2)

theorem not_mem_of_isPlain {text : List Char} (h : ∀ c ∈ text, isPlain c = true) {d : Char}
    (hd : isPlain d = false) : d ∉ text := by
  intro hm
  rw [h d hm] at hd
  cases hd

theorem escapeAttribute_of_isPlain {text : List Char} (h : ∀ c ∈ text, isPlain c = true) :
    Escape.escapeAttribute text = text := by
  have hno := fun d hd => not_mem_of_isPlain (d := d) h hd
  rw [Escape.escapeAttribute, Escape.escapeText,
    replaceChar_of_not_mem (hno '&' (by decide)),
    replaceChar_of_not_mem (hno '<' (by decide)),
    replaceChar_of_not_mem (hno '>' (by decide)),
    replaceChar_of_not_mem (hno '\x27' (by decide)),
    replaceChar_of_not_mem (hno '"' (by decide))]

theorem escaped_of_isPlain {text : List Char} (h : ∀ c ∈ text, isPlain c = true) :
    Literal.escaped '"' text = text := by
  induction text with
  | nil => rfl
  | cons c text ih =>
    have hslash : c ≠ '\\' :=
      fun hc => not_mem_of_isPlain h (d := '\\') (by decide) (hc ▸ List.mem_cons_self)
    have hquote : c ≠ '"' :=
      fun hc => not_mem_of_isPlain h (d := '"') (by decide) (hc ▸ List.mem_cons_self)
    rw [Literal.escaped_cons, if_neg (not_or.mpr ⟨hslash, hquote⟩),
      ih (List.forall_mem_cons.mp h).2]
    rfl

/-- The text of a literal in double quotes. -/
def quoted (text : List Char) : List Char := '"' :: (text ++ ['"'])

theorem scan_quoted {text : List Char} (h : ∀ c ∈ text, isPlain c = true) :
    scan (quoted text) 0 = .ok [.leaf .string (String.ofList text) 0 (text.length + 2)] := by
  have hscan := scan_escaped (.inr rfl) (.inl rfl) text
  rw [escaped_of_isPlain h] at hscan
  rw [quoted, ← List.singleton_append, ← List.append_assoc, hscan]
  simp

/-! ## Attributes -/

/-- An attribute of static markup. -/
structure Attribute.Static (a : Attribute) : Prop where
  name : PlainName a.name
  value : a.value = none
    ∨ ∃ text : String, a.value = some (.literal text) ∧ ∀ c ∈ text.toList, isPlain c = true

/-- The value of a static attribute, with the sign before it. -/
def valueText (text : List Char) : List Char := '=' :: quoted text

theorem scans_blank : Scans " ".toList := ⟨[], by cbv⟩

theorem atomsOf_blank : atomsOf " ".toList = [] := atomsOf_of_scan (by cbv)

theorem isBoundary_blank : Text.isBoundary ' ' = true := by decide

theorem seam_blank (s : List Char) : Text.Seam " ".toList s := .of_last (a := []) isBoundary_blank

theorem atomsOf_blank_append {s : List Char} (hs : Scans s) :
    atomsOf (" ".toList ++ s) = (atomsOf s).map (Atom.shift 1) := by
  rw [atomsOf_append (seam_blank s) scans_blank hs, atomsOf_blank]
  rfl

theorem tokensOf_blank_append {s : List Char} (hs : Scans s) :
    tokensOf (" ".toList ++ s) = (tokensOf s).map (Token.shift 1) := by
  rw [tokensOf, atomsOf_blank_append hs, classify_shift]
  rfl

/-- The cursor before a text with a blank at its start is before the rest of it. -/
theorem Cursor.at_ofText_blank {s : List Char} (hs : Scans s) :
    (Cursor.ofText (" ".toList ++ s)).At " ".toList s [] [] := by
  refine ⟨by simp [Cursor.ofText, ofTokens], ?_⟩
  change tokensOf _ = _
  rw [tokensOf_blank_append hs, List.append_nil]
  rfl

theorem isBoundary_eq : Text.isBoundary '=' = true := by decide

theorem tokensOf_eq : tokensOf "=".toList = [.flat .punct "=" 0 1] := by
  rw [tokensOf, atomsOf_of_scan (s := "=".toList) (by cbv)]; cbv

theorem tokensOf_quoted {text : List Char} (h : ∀ c ∈ text, isPlain c = true) :
    tokensOf (quoted text) = [.flat .string (String.ofList text) 0 (text.length + 2)] := by
  rw [tokensOf, atomsOf_of_scan (scan_quoted h), classify_leaf (by decide)]
  simp [classify, leafTokenKind]

theorem scans_eq : Scans "=".toList := ⟨_, by cbv⟩

theorem seam_eq (s : List Char) : Text.Seam "=".toList s := .of_last (a := []) isBoundary_eq

theorem meets_eq_quoted {text : List Char} (h : ∀ c ∈ text, isPlain c = true) :
    Meets "=".toList (quoted text) := by
  refine ⟨seam_eq _, .of_head ?_⟩
  rw [atomsOf_of_scan (scan_quoted h)]
  rintro b hb
  obtain rfl := Option.some.inj hb
  simp

theorem scans_valueText {text : List Char} (h : ∀ c ∈ text, isPlain c = true) :
    Scans (valueText text) := .append (a := "=".toList) (seam_eq _) scans_eq ⟨_, scan_quoted h⟩

theorem tokensOf_valueText {text : List Char} (h : ∀ c ∈ text, isPlain c = true) :
    tokensOf (valueText text) = [.flat .punct "=" 0 1,
      .flat .string (String.ofList text) 1 (text.length + 3)] := by
  have happ := tokensOf_append (meets_eq_quoted h) scans_eq ⟨_, scan_quoted h⟩
  rw [tokensOf_eq, tokensOf_quoted h] at happ
  rw [valueText]
  exact happ

theorem head_blank_name {n : String} (hn : PlainName n) {s : List Char}
    (hs : Meets n.toList s) (hsc : Scans s) : ∃ t ts,
      tokensOf (" ".toList ++ (n.toList ++ s)) = t :: ts ∧ isNameStart t = true ∧ 0 < t.pos := by
  obtain ⟨t, ts, ht, hstart, -⟩ := hn.tokens
  have hscans := Scans.append hs.seam hn.scans hsc
  rw [tokensOf_blank_append hscans, tokensOf_append hs hn.scans hsc, ht]
  refine ⟨t.shift 1, _, rfl, by simpa [isNameStart] using hstart, ?_⟩
  rw [Token.pos_shift]
  omega

theorem meets_nil (s : List Char) : Meets s [] := by
  refine ⟨fun x _ y hy => ?_, .of_head ?_⟩
  · cases hy
  · rw [atomsOf_of_scan (s := []) (by cbv)]
    simp

theorem Atom.shift_ne_punct {a : Atom} (h : ∀ value pos stop, a ≠ .leaf .punct value pos stop)
    (n : Nat) : ∀ value pos stop, a.shift n ≠ .leaf .punct value pos stop := by
  intro value pos stop he
  cases a with
  | leaf kind value' pos' stop' =>
    rw [Atom.shift_leaf] at he
    cases he
    exact h _ _ _ rfl
  | group b pos' stop' inner children =>
    rw [Atom.shift_group] at he
    cases he

theorem attributeText_bare {n : String} (hn : PlainName n) :
    AttributeText (" ".toList ++ n.toList) ⟨n, none⟩ := by
  have hat := Cursor.at_ofText_blank hn.scans
  obtain ⟨d, hd, -, hda⟩ := hn.run hat Window.clear_nil.1.1
  refine ⟨⟨_, rfl⟩, ⟨.append (seam_blank _) scans_blank hn.scans, d, .cons ?_ .nil, hda⟩, ?_, ?_,
    fun _ => rfl⟩
  · rw [readAttribute, Window.bind_of_ok hd]
    change (if d.sees .punct "=" = true then _ else _ : Reader Attribute) d = _
    rw [Window.sees_of_nil hda (by decide)]
    rfl
  · simpa using head_blank_name hn (meets_nil _) scans_nil
  · rw [atomsOf_blank_append hn.scans, List.getLast?_map]
    intro x hx
    obtain ⟨a, ha, rfl⟩ := Option.map_eq_some_iff.mp hx
    exact Atom.shift_ne_punct (hn.last_atom a ha) 1

/-- Behind the name of an attribute, an equals sign and a literal are its value. -/
theorem readAttribute_of_literal {c d : Cursor} {n : String} {t u : Token}
    (hd : readName c = .ok n d) (ha : d.ahead = [t, u]) (ht : t.has .punct "=" = true)
    (hu : u.kind = .string) :
    readAttribute c = .ok ⟨n, some (.literal u.value)⟩ ((d.skip 1).skip 1) := by
  have hahead : (d.skip 1).ahead = [u] := by rw [skip, ha]; rfl
  have hhead : (d.skip 1).head = u := Window.head_of_ahead hahead
  have hsees : d.sees .punct "=" = true := by rw [sees, Window.head_of_ahead ha, ht]
  have hvalue : readAttributeValue (d.skip 1) = .ok (.literal u.value) ((d.skip 1).skip 1) := by
    change (if (d.skip 1).head.isLiteral = true then _ else _ : Reader AttributeValue) _ = _
    rw [hhead, if_pos (by rw [Token.isLiteral, hu]; rfl)]
    rfl
  rw [readAttribute, Window.bind_of_ok hd]
  change (if d.sees .punct "=" = true then _ else _ : Reader Attribute) d = _
  rw [if_pos hsees, Window.bind_of_ok (show next d = .ok d.head (d.skip 1) from rfl),
    Window.bind_of_ok hvalue]
  rfl

theorem attributeText_literal {n text : String} (hn : PlainName n)
    (ht : ∀ c ∈ text.toList, isPlain c = true) :
    AttributeText (" ".toList ++ (n.toList ++ valueText text.toList))
      ⟨n, some (.literal text)⟩ := by
  have hmeets : Meets n.toList (valueText text.toList) :=
    ⟨.of_head isBoundary_eq, .of_last hn.last_atom⟩
  have hvalue := scans_valueText ht
  have hscans := Scans.append hmeets.seam hn.scans hvalue
  have hleft := (Cursor.at_ofText_blank hscans).left hmeets hn.scans hvalue
  rw [tokensOf_valueText ht] at hleft
  obtain ⟨d, hd, -, hda⟩ := hn.run hleft (by
    rintro u hu
    obtain rfl := Option.some.inj hu
    simp [isSeparator, isSegment, isNameStart, Token.has, Token.flat, Token.kind, Token.value])
  have hread := readAttribute_of_literal hd hda (by rfl) (by rfl)
  refine ⟨⟨_, rfl⟩, ⟨.append (seam_blank _) scans_blank hscans, (d.skip 1).skip 1,
    .cons ?_ .nil, ?_⟩, ?_, ?_, fun _ => rfl⟩
  · simpa [Token.flat, Token.value] using hread
  · rw [skip, skip, hda]; rfl
  · exact head_blank_name hn hmeets hvalue
  · have hatom : (atomsOf (quoted text.toList)).getLast?
        = some (.leaf .string (String.ofList text.toList) 0 (text.toList.length + 2)) := by
      rw [atomsOf_of_scan (scan_quoted ht), List.getLast?_singleton]
    have hlast := getLast?_atomsOf_append (seam_blank _) scans_blank hscans
      (getLast?_atomsOf_append hmeets.seam hn.scans hvalue
        (getLast?_atomsOf_append (a := "=".toList) (seam_eq _) scans_eq ⟨_, scan_quoted ht⟩ hatom))
    rw [hlast]
    intro x hx value pos stop he
    rw [he] at hx
    simp at hx

end MarkupTemplate
