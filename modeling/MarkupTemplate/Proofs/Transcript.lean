import MarkupTemplate.Host.Run
import MarkupTemplate.Proofs.Action
import MarkupTemplate.Proofs.Authored
import MarkupTemplate.Proofs.Node.Derivation
import MarkupTemplate.Proofs.Piece
import MarkupTemplate.Proofs.Sequence

/-!
# Transcripts

A template of literals and tags in which nothing is computed is written as its transcript: every tag
and every literal as it is authored, in the order of the source. There is one exception. A closing
tag whose name is empty, which only a quoted name can be, is written with the name of the element
that it closes.

* `Node.Fixed`: a literal, or an element in which nothing is computed.
* `Transcribed`: tokens that spell what is written for some nodes.
* `transcribed_of_readNode`: the tokens of a fixed node do.
* `ofText?_transcribed`: what is written for a template of fixed nodes.
-/
namespace MarkupTemplate

open Cursor Node MarkupTemplate.Action

/-! ## Fixed nodes -/

/-- An attribute that is bare or a literal. -/
def Attribute.Fixed (a : Attribute) : Prop := a.value = none ∨ ∃ s, a.value = some (.literal s)

/-- A literal, or an element in which nothing is computed. -/
inductive Node.Fixed : Node → Prop where
  | text (s : String) : Fixed (.text s)
  | element {name : String} {attributes : List Attribute} {selfClosing : Bool}
      {children : List Node} {closeName : Option String} (ha : ∀ a ∈ attributes, a.Fixed)
      (hc : ∀ n ∈ children, Fixed n) :
      Fixed (.element name attributes selfClosing children closeName)

/-- Fixed attributes are spelled by their tokens and written as their transcripts. -/
theorem spells_of_derivesAttributes {source : List Char} {ts : List Token}
    {attributes : List Attribute} (h : DerivesAttributes source ts attributes)
    (hf : ∀ a ∈ attributes, a.Fixed) :
    ∃ as, SpellsAttributes ts as ∧ ∀ (r : Rendering) (scope : Bindings),
      Emits r.sink (Render.attributes r scope attributes) ()
        (String.join (as.map AuthoredAttribute.text)) := by
  induction h with
  | nil => exact ⟨[], .nil, fun r scope => emits_pure⟩
  | @bare ns ts name attributes hn _ ih =>
    obtain ⟨as, has, hemits⟩ := ih fun a ha => hf a (List.mem_cons_of_mem _ ha)
    refine ⟨(name, none) :: as, .bare hn has, fun r scope => ?_⟩
    rw [Render.attributes, List.map_cons, String.join_cons]
    exact emits_write.bind (hemits r scope)
  | @valued eq ns vs ts name v attributes hn he hv _ ih =>
    obtain ⟨as, has, hemits⟩ := ih fun a ha => hf a (List.mem_cons_of_mem _ ha)
    obtain hnone | ⟨s, hs⟩ := hf _ List.mem_cons_self
    · cases hnone
    cases hs
    cases hv with
    | @literal t hl =>
      refine ⟨(name, some t.value) :: as, .literal hn he hl has, fun r scope => ?_⟩
      have htext : AuthoredAttribute.text (name, some t.value)
          ++ String.join (as.map AuthoredAttribute.text)
          = (" " ++ name) ++ ("=\"" ++ (Render.attributeText t.value
            ++ ("\"" ++ String.join (as.map AuthoredAttribute.text)))) := by
        simp only [AuthoredAttribute.text, String.append_assoc]
      rw [List.map_cons, String.join_cons, htext, Render.attributes]
      have hvalue : Emits r.sink (Render.attributeValue r scope (.literal t.value)) ()
          (Render.attributeText t.value) := by
        rw [Render.attributeValue]
        exact emits_write
      exact emits_write.bind (emits_write.bind
        (hvalue.bind (emits_write.bind (hemits r scope))))

/-! ## Nodes and their tokens -/

/-- Some tokens spell the tags and literals of some nodes: inside open elements of which `P` holds,
what is written for the tags and literals is what is written for the nodes. -/
def Transcribed (P : List String → Prop) (ts : List Token) (nodes : List Node) : Prop :=
  ∃ ms text, Transcribes ts ms
    ∧ (∀ outer, P outer → ∀ rest,
        Authored.written outer (ms ++ rest) = text ++ Authored.written outer rest)
    ∧ ∀ (r : Rendering) (scope : Bindings), Emits r.sink (Render.nodes r scope nodes) scope text

section Transcribed

variable {P : List String → Prop} {ts us : List Token}

theorem emits_node {sink : Nat} {r : Rendering} {scope : Bindings} {n : Node} {t : String}
    (h : Emits sink (Render.node r scope n) scope t) :
    Emits sink (Render.nodes r scope [n]) scope t := by
  have hnodes : Render.nodes r scope [n] = Render.node r scope n := bind_pure _
  rwa [hnodes]

theorem Transcribed.nil : Transcribed P [] [] :=
  ⟨[], "", .nil, fun _ _ _ => by simp, fun _ _ => emits_pure⟩

theorem Transcribed.append {ns os : List Node} (h : Transcribed P ts ns)
    (hs : Transcribed P us os) : Transcribed P (ts ++ us) (ns ++ os) := by
  obtain ⟨ms, t, hms, hwritten, hemits⟩ := h
  obtain ⟨ks, u, hks, hwritten', hemits'⟩ := hs
  refine ⟨ms ++ ks, t ++ u, hms.append hks, fun outer hp rest => ?_, fun r scope => ?_⟩
  · rw [List.append_assoc, hwritten outer hp, hwritten' outer hp, String.append_assoc]
  · rw [Render.nodes_append]
    exact (hemits r scope).bind (hemits' r scope)

theorem transcribed_text {t : Token} (hl : t.isLiteral = true) :
    Transcribed P [t] [.text t.value] := by
  refine ⟨[.literal t.value], t.value, .literal hl .nil, fun outer _ rest => ?_,
    fun r scope => emits_node ?_⟩
  · cases outer <;> rfl
  · rw [Render.node]
    exact emits_write.then_pure

/-- A closing tag outside all elements is a literal. -/
theorem transcribed_stray {name : String} (hc : CloseTag ts name) :
    Transcribed (· = []) ts [.text ("</" ++ name ++ ">")] := by
  have htranscribes := Transcribes.close hc .nil
  rw [List.append_nil] at htranscribes
  refine ⟨[.close name], "</" ++ name ++ ">", htranscribes, ?_, fun r scope => emits_node ?_⟩
  · rintro outer rfl rest
    rfl
  · rw [Render.node]
    exact emits_write.then_pure

theorem transcribed_void {lt last : Token} {ns as : List Token} {name : String}
    {attributes : List Attribute} {text : List Char} (hl : lt.kind = .lt) (hn : Name ns name)
    (ha : DerivesAttributes text as attributes) (he : last.kind = .selfClose)
    (hf : ∀ a ∈ attributes, a.Fixed) :
    Transcribed P (lt :: (ns ++ (as ++ [last]))) [.element name attributes true [] none] := by
  obtain ⟨marks, hmarks, hemits⟩ := spells_of_derivesAttributes ha hf
  refine ⟨[.start name marks true], (Authored.start name marks true).text,
    .start hl hn hmarks he .nil, fun outer _ rest => ?_, fun r scope => emits_node ?_⟩
  · cases outer <;> rfl
  · have hend : Emits r.sink (Render.write r " />") () " />" := emits_write
    have htext : (Authored.start name marks true).text
        = ("<" ++ name) ++ (String.join (marks.map AuthoredAttribute.text) ++ " />") := by
      simp only [Authored.text, if_true, String.append_assoc]
    rw [htext, Render.node]
    exact emits_write.bind ((hemits r scope).bind hend.then_pure)

theorem transcribed_element {lt last : Token} {ns as cs : List Token} {name closeName : String}
    {attributes : List Attribute} {children : List Node} {text : List Char} (hl : lt.kind = .lt)
    (hn : Name ns name) (ha : DerivesAttributes text as attributes) (he : last.kind = .gt)
    (hf : ∀ a ∈ attributes, a.Fixed) (h : Transcribed (fun _ => True) us children)
    (hc : CloseTag cs closeName) :
    Transcribed P (lt :: (ns ++ (as ++ last :: (us ++ cs))))
      [.element name attributes false children (some closeName)] := by
  obtain ⟨marks, hmarks, hemits⟩ := spells_of_derivesAttributes ha hf
  obtain ⟨ms, body, hms, hwritten, hbody⟩ := h
  have hclose := Transcribes.close hc .nil
  rw [List.append_nil] at hclose
  let close : String := "</" ++ Render.closingName name (some closeName) ++ ">"
  refine ⟨.start name marks false :: (ms ++ [.close closeName]),
    (Authored.start name marks false).text ++ (body ++ close),
    .start hl hn hmarks he (hms.append hclose), fun outer _ rest => ?_,
    fun r scope => emits_node ?_⟩
  · have hstart : Authored.rendered outer (.start name marks false)
        = (Authored.start name marks false).text := by
      cases outer <;> rfl
    rw [List.cons_append, Authored.written, hstart, Authored.opened, List.append_assoc,
      hwritten _ trivial]
    simp only [List.cons_append, List.nil_append, Authored.written, Authored.rendered,
      Authored.opened, Authored.text, String.append_assoc, close]
  · have hend : Emits r.sink
        (Render.write r ("</" ++ Render.closingName name (some closeName) ++ ">")) () close :=
      emits_write
    have htext : (Authored.start name marks false).text ++ (body ++ close)
        = ("<" ++ name) ++ (String.join (marks.map AuthoredAttribute.text)
          ++ (">" ++ (body ++ close))) := by
      simp only [Authored.text, Bool.false_eq_true, if_false, String.append_assoc]
    rw [htext, Render.node]
    exact emits_write.bind ((hemits r scope).bind
      (emits_write.bind ((hbody r scope).bind hend.then_pure)))

end Transcribed

/-! ## The readers -/

mutual

theorem transcribed_of_readNodes (opening : Token) (c : Cursor) (hc : c.Real) :
    ∀ nodes d, readNodes (some opening) c = .ok nodes d → (∀ n ∈ nodes, n.Fixed) →
      ∃ ts, c.Takes ts d ∧ Transcribed (fun _ => True) ts nodes := by
  intro nodes d h hf
  rw [readNodes_some_eq] at h
  split at h
  · exact absurd h Window.failAt_ne_ok
  split at h
  · injection h with h₁ h₂
    subst h₁ h₂
    exact ⟨[], .refl _, .nil⟩
  · obtain ⟨node, e, hnode, h⟩ := Window.bind_eq_ok h
    obtain ⟨rest, f, hrest, h⟩ := Window.bind_eq_ok h
    injection h with h₁ h₂
    subst h₁ h₂
    have hlt := Window.lt_of_readNode hnode
    obtain ⟨hn, hf⟩ := List.forall_mem_cons.mp hf
    obtain ⟨us, hus, htext⟩ := transcribed_of_readNode c hc node e hnode hn
    obtain ⟨ts, hts, htexts⟩ :=
      transcribed_of_readNodes opening e (hc.of_takes hus) rest f hrest hf
    exact ⟨us ++ ts, hus.trans hts, htext.append htexts⟩
termination_by (sizeOf c.ahead, 3)
decreasing_by
  · exact Prod.Lex.right _ (by omega)
  · exact Prod.Lex.left _ _ hlt

theorem transcribed_of_readElement (c : Cursor) (hc : c.Real) :
    ∀ node d, readElement c = .ok node d → node.Fixed →
      ∃ ts, c.Takes ts d ∧ Transcribed (fun _ => True) ts [node] := by
  intro node d h hf
  obtain ⟨tag, e, htag, h⟩ := Window.bind_eq_ok h
  have hlt := Window.lt_of_advances advances_readTagHead htag
  obtain ⟨lt, e₁, hl, htag⟩ := Window.bind_eq_ok htag
  obtain ⟨name, e₂, hname, htag⟩ := Window.bind_eq_ok htag
  obtain ⟨x, e₃, hx, htag⟩ := Window.bind_eq_ok htag
  injection htag with h₁ h₂
  subst h₁ h₂
  obtain ⟨t₁, hk⟩ := takes_of_expectKind (by decide) hl
  obtain ⟨ns, t₂, hn⟩ := takes_of_readName hname
  obtain ⟨as, last, t₃, ha, hend⟩ := takes_of_readAttributes hx
  have htakes := t₁.cons (t₂.trans t₃)
  dsimp only at h
  split at h
  · next hself =>
    injection h with h₁ h₂
    subst h₁ h₂
    cases hf with
    | element hf _ => exact ⟨_, htakes, transcribed_void hk hn ha (by rw [hend, if_pos hself]) hf⟩
  · next hself =>
    obtain ⟨children, f, hchildren, h⟩ := Window.bind_eq_ok h
    obtain ⟨close, g, hclose, h⟩ := Window.bind_eq_ok h
    injection h with h₁ h₂
    subst h₁ h₂
    cases hf with
    | element hf hfc =>
      obtain ⟨ts, t₄, htext⟩ :=
        transcribed_of_readNodes lt e₃ (hc.of_takes htakes) children f hchildren hfc
      obtain ⟨cs, t₅, hclose⟩ := takes_of_readCloseTag hclose
      refine ⟨_, htakes.trans (t₄.trans t₅), ?_⟩
      simpa using transcribed_element hk hn ha (by rw [hend, if_neg hself]) hf htext hclose
termination_by (sizeOf c.ahead, 1)
decreasing_by exact Prod.Lex.left _ _ hlt

theorem transcribed_of_readNode (c : Cursor) (hc : c.Real) :
    ∀ node d, readNode c = .ok node d → node.Fixed →
      ∃ ts, c.Takes ts d ∧ Transcribed (fun _ => True) ts [node] := by
  intro node d h hf
  obtain ⟨ts, htakes, hderives⟩ := derives_of_readNode c hc node d h
  -- The first token decides which reader it is.
  have head {t : Token} {us : List Token} {kind : TokenKind} (hts : ts = t :: us)
      (hk : t.kind = kind) : c.head.kind = kind := by
    have hahead : c.ahead = t :: (us ++ d.ahead) := by rw [htakes.1, hts]; rfl
    rw [Window.head_of_ahead hahead, hk]
  have element {t : Token} {us : List Token} (hts : ts = t :: us) (hk : t.kind = .lt) :
      ∃ ts, c.Takes ts d ∧ Transcribed (fun _ => True) ts [node] := by
    rw [readNode_eq, head hts hk] at h
    exact transcribed_of_readElement c hc node d h hf
  cases hf with
  | text s =>
    generalize hphrase : Phrase.node (.text s) = phrase at hderives
    cases hderives with
    | @text t hl =>
      cases hphrase
      exact ⟨_, htakes, transcribed_text hl⟩
    | stray hclose =>
      obtain ⟨hk, -, -⟩ := hclose
      exact absurd h (readNode_fails (.inr (by rw [isAt, head rfl hk]; rfl)))
    | _ => cases hphrase
  | element ha hchildren =>
    cases hderives with
    | void hl _ _ _ => exact element rfl hl
    | element hl _ _ _ _ _ => exact element rfl hl
termination_by (sizeOf c.ahead, 2)
decreasing_by all_goals exact Prod.Lex.right _ (by omega)

end

/-- The items of a document, closing tags that belong to no element among them. -/
theorem transcribed_of_items {c d : Cursor} {nodes : List Node} (h : Items readItem c nodes d)
    (hc : c.Real) (hf : ∀ n ∈ nodes, n.Fixed) :
    ∃ ts, c.Takes ts d ∧ Transcribed (· = []) ts nodes := by
  induction h with
  | nil => exact ⟨[], .refl _, .nil⟩
  | @cons c d e node nodes h _ ih =>
    obtain ⟨hn, hf⟩ := List.forall_mem_cons.mp hf
    have hitem : ∃ ts, c.Takes ts d ∧ Transcribed (· = []) ts [node] := by
      obtain ⟨-, name, hname, rfl⟩ | ⟨-, h⟩ := readItem_eq_ok_iff.mp h
      · obtain ⟨ts, hts, hclose⟩ := takes_of_readCloseTag hname
        exact ⟨ts, hts, transcribed_stray hclose⟩
      · obtain ⟨ts, hts, ms, t, hms, hwritten, hemits⟩ := transcribed_of_readNode c hc node d h hn
        exact ⟨ts, hts, ms, t, hms, fun outer _ => hwritten outer trivial, hemits⟩
    obtain ⟨ts, hts, htext⟩ := hitem
    obtain ⟨us, hus, htexts⟩ := ih (hc.of_takes hts) hf
    exact ⟨ts ++ us, hts.trans hus, htext.append htexts⟩

/-! ## Documents -/

/-- A text that parses to fixed nodes is written without fail, whoever runs its fragments, as what
is written for the tags and literals that its tokens spell. This is their transcript if no closing
name is empty. -/
theorem ofText?_transcribed {text : List Char} {doc : Document}
    (h : Document.ofText? text = .ok doc) (hf : ∀ n ∈ doc.nodes, n.Fixed) :
    ∃ marks, Transcribes (tokensOf text) marks
      ∧ (∀ others, Transcribes (tokensOf text) others → others = marks)
      ∧ (∀ (ev : Evaluator) (sink : Nat) (scope : Bindings),
        Emits sink (Render.document ev sink doc scope) () (Authored.written [] marks))
      ∧ ((∀ name, .close name ∈ marks → name ≠ "") →
        Authored.written [] marks = String.join (marks.map Authored.text)) := by
  obtain ⟨-, ⟨d, hd⟩, -⟩ := ofText?_ok_iff_readNodes.mp h
  obtain ⟨hitems, hend⟩ := readNodes_none_ok_iff.mp hd
  have hreal : (Cursor.ofText text).Real := ⟨_, _, placed_tokensOf text⟩
  obtain ⟨ts, htakes, marks, t, hmarks, hwritten, hemits⟩ := transcribed_of_items hitems hreal hf
  have hts : tokensOf text = ts := htakes.all ((isAt_endOfInput_of_items hitems).mp hend)
  have ht : Authored.written [] marks = t := by
    have hall := hwritten [] rfl []
    rwa [List.append_nil, Authored.written, String.append_empty] at hall
  refine ⟨marks, hts ▸ hmarks, fun others h => h.unique hmarks hts, fun ev sink scope => ?_,
    fun hne => Authored.written_eq_join hne []⟩
  rw [ht]
  exact (hemits ⟨ev, sink, doc.source⟩ scope).then_pure

/-- An element with a quoted closing name, and a closing tag that closes none. -/
theorem ofText?_transcribed_quoted :
    ∃ doc marks, Document.ofText? "<a b=\"1\"></\"x y\"></d>".toList = .ok doc
      ∧ (∀ n ∈ doc.nodes, n.Fixed)
      ∧ Transcribes (tokensOf "<a b=\"1\"></\"x y\"></d>".toList) marks
      ∧ Emits 0 (Render.document ⟨Host.language 4, []⟩ 0 doc []) () (Authored.written [] marks)
      ∧ (Render.document ⟨Host.language 4, []⟩ 0 doc [] Store.empty).store.output 0
        = "<a b=\"1\"></x y></d>" := by
  have htokens : tokensOf "<a b=\"1\"></\"x y\"></d>".toList
      = [.flat .lt "<" 0 1, .flat .ident "a" 1 2, .flat .ident "b" 3 4, .flat .punct "=" 4 5,
        .flat .string "1" 5 8, .flat .gt ">" 8 9, .flat .closeTag "</" 9 11,
        .flat .string "x y" 11 16, .flat .gt ">" 16 17, .flat .closeTag "</" 17 19,
        .flat .ident "d" 19 20, .flat .gt ">" 20 21] := by
    rw [tokensOf, atomsOf_of_scan (by cbv)]
    cbv
  have helement : readNode (Cursor.ofText "<a b=\"1\"></\"x y\"></d>".toList)
      = .ok (.element "a" [⟨"b", some (.literal "1")⟩] false [] (some "x y"))
        ⟨"<a b=\"1\"></\"x y\"></d>".toList, 21, 9, [.flat .closeTag "</" 17 19,
          .flat .ident "d" 19 20, .flat .gt ">" 20 21]⟩ := by
    rw [Cursor.ofText, htokens]
    have htag : readTagHead (ofTokens "<a b=\"1\"></\"x y\"></d>".toList [.flat .lt "<" 0 1,
        .flat .ident "a" 1 2, .flat .ident "b" 3 4, .flat .punct "=" 4 5, .flat .string "1" 5 8,
        .flat .gt ">" 8 9, .flat .closeTag "</" 9 11, .flat .string "x y" 11 16,
        .flat .gt ">" 16 17, .flat .closeTag "</" 17 19, .flat .ident "d" 19 20,
        .flat .gt ">" 20 21])
        = .ok ⟨"a", [⟨"b", some (.literal "1")⟩], false, .flat .lt "<" 0 1⟩
          ⟨"<a b=\"1\"></\"x y\"></d>".toList, 21, 6, [.flat .closeTag "</" 9 11,
            .flat .string "x y" 11 16, .flat .gt ">" 16 17, .flat .closeTag "</" 17 19,
            .flat .ident "d" 19 20, .flat .gt ">" 20 21]⟩ := by cbv
    exact readNode_element rfl htag rfl (readNodes_some_of_items .nil (by cbv)) (by cbv)
  have hdoc : Document.ofText? "<a b=\"1\"></\"x y\"></d>".toList
      = .ok ⟨[.element "a" [⟨"b", some (.literal "1")⟩] false [] (some "x y"), .text "</d>"],
        "<a b=\"1\"></\"x y\"></d>".toList⟩ := by
    refine ofText?_ok_iff.mpr
      ⟨⟨⟨_, by cbv⟩, ⟨"<a b=\"1\"></\"x y\"></d>".toList, 21, 12, []⟩, ?_, rfl⟩, rfl⟩
    exact (items_readItem (.cons helement .nil)).append (.cons (by cbv) .nil)
  have hf : ∀ n ∈ [Node.element "a" [⟨"b", some (.literal "1")⟩] false [] (some "x y"),
      .text "</d>"], n.Fixed := by
    simp only [List.forall_mem_cons]
    exact ⟨.element (by simp [Attribute.Fixed]) (by simp), .text _, by simp⟩
  obtain ⟨marks, hmarks, -, hemits, -⟩ := ofText?_transcribed hdoc hf
  exact ⟨_, marks, hdoc, hf, hmarks, hemits _ 0 [], by cbv⟩

/-- An empty closing name is not written as it is authored: the name of the element is written in
its place. -/
theorem not_transcribed_empty :
    ∃ doc marks, Document.ofText? "<a></\"\">".toList = .ok doc ∧ (∀ n ∈ doc.nodes, n.Fixed)
      ∧ Transcribes (tokensOf "<a></\"\">".toList) marks
      ∧ String.join (marks.map Authored.text) = "<a></>"
      ∧ (Render.document ⟨Host.language 4, []⟩ 0 doc [] Store.empty).store.output 0
        = "<a></a>" := by
  have htokens : tokensOf "<a></\"\">".toList
      = [.flat .lt "<" 0 1, .flat .ident "a" 1 2, .flat .gt ">" 2 3, .flat .closeTag "</" 3 5,
        .flat .string "" 5 7, .flat .gt ">" 7 8] := by
    rw [tokensOf, atomsOf_of_scan (by cbv)]
    cbv
  have helement : readNode (Cursor.ofText "<a></\"\">".toList)
      = .ok (.element "a" [] false [] (some "")) ⟨"<a></\"\">".toList, 8, 6, []⟩ := by
    rw [Cursor.ofText, htokens]
    have htag : readTagHead (ofTokens "<a></\"\">".toList [.flat .lt "<" 0 1, .flat .ident "a" 1 2,
        .flat .gt ">" 2 3, .flat .closeTag "</" 3 5, .flat .string "" 5 7, .flat .gt ">" 7 8])
        = .ok ⟨"a", [], false, .flat .lt "<" 0 1⟩ ⟨"<a></\"\">".toList, 8, 3,
          [.flat .closeTag "</" 3 5, .flat .string "" 5 7, .flat .gt ">" 7 8]⟩ := by cbv
    exact readNode_element rfl htag rfl (readNodes_some_of_items .nil (by cbv)) (by cbv)
  have hdoc : Document.ofText? "<a></\"\">".toList
      = .ok ⟨[.element "a" [] false [] (some "")], "<a></\"\">".toList⟩ := by
    refine ofText?_ok_iff.mpr ⟨⟨⟨_, by cbv⟩, ⟨"<a></\"\">".toList, 8, 6, []⟩, ?_, rfl⟩, rfl⟩
    exact items_readItem (.cons helement .nil)
  refine ⟨_, [.start "a" [] false, .close ""], hdoc, ?_, ?_, by cbv, by cbv⟩
  · simp only [List.forall_mem_cons]
    exact ⟨.element (by simp) (by simp), by simp⟩
  · rw [htokens]
    have hname : Name [.flat .ident "a" 1 2] "a" := .plain rfl rfl
    have hclose : Name [.flat .string "" 5 7] "" := .quoted rfl
    exact .start rfl hname .nil rfl (.close (.mk rfl hclose rfl) .nil)

end MarkupTemplate
