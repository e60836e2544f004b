import MarkupTemplate.Proofs.Attribute
import MarkupTemplate.Proofs.Action

/-!
# Static markup

Elements with unquoted names, whose attributes are bare or have values that need no escaping, are
written as a text that parses to the same elements.

* `Node.Static`: such an element.
* `NodesText`: a text that is read as given nodes.
* `ofText?_render_static`: what is written for static elements parses to them.
-/
namespace MarkupTemplate

open Cursor Node MarkupTemplate.Action

/-- An element of static markup: unquoted names, no attribute that is computed, and only static
elements inside. -/
inductive Node.Static : Node → Prop where
  | selfClosing {name : String} {attributes : List Attribute} (hn : PlainName name)
      (ha : ∀ a ∈ attributes, a.Static) : Static (.element name attributes true [] none)
  | closed {name closeName : String} {attributes : List Attribute} {children : List Node}
      (hn : PlainName name) (ha : ∀ a ∈ attributes, a.Static) (hc : ∀ c ∈ children, Static c)
      (hm : PlainName closeName) :
      Static (.element name attributes false children (some closeName))

/-! ## Texts of nodes -/

/-- The text of nodes: it is read as the nodes, which have no offsets in them, and starts with a tag
unless it is empty. -/
structure NodesText (t : List Char) (nodes : List Node) : Prop where
  yields : Yields readNode t nodes
  opens : ∀ u ∈ (tokensOf t).head?, u.kind = .lt
  fixed : ∀ n, nodes.map (Node.shift n) = nodes

theorem tokensOf_nil : tokensOf [] = [] := by
  rw [tokensOf, atomsOf_of_scan (s := []) (by cbv)]
  cbv

theorem nodesText_nil : NodesText [] [] := by
  refine ⟨⟨scans_nil, Cursor.ofText [], .nil, tokensOf_nil⟩, ?_, fun _ => rfl⟩
  simp [tokensOf_nil]

theorem NodesText.clear {t : List Char} {nodes : List Node} (h : NodesText t nodes) {W : Window}
    {n : Nat} : W.Clear ((tokensOf t).map (Token.shift n)) := by
  cases htokens : tokensOf t with
  | nil => exact Window.clear_nil
  | cons u us =>
    have hu := h.opens u (by rw [htokens]; rfl)
    exact clear_of_kind .lt (by rw [Token.kind_shift, hu]) (by decide)

/-- The text of nodes behind the text of a node that ends in a tag. -/
theorem NodesText.cons {t u : List Char} {node : Node} {nodes : List Node}
    (ht : NodesText t [node]) (he : EndsTag t) (hu : NodesText u nodes) :
    NodesText (t ++ u) (node :: nodes) := by
  have hmeets := he.meets u
  have hat := at_ofText (t ++ u)
  have hleft := hat.left hmeets ht.yields.1 hu.yields.1
  obtain ⟨d, hd, hds, hda⟩ := ht.yields.run local_readNode hleft
    (by rw [List.append_nil, List.append_nil]; exact hu.clear)
  have hright := hat.right hds hda
  obtain ⟨e, he', -, hea⟩ := hu.yields.run local_readNode hright Window.clear_nil
  rw [ht.fixed] at hd
  rw [hu.fixed] at he'
  refine ⟨⟨.append hmeets.seam ht.yields.1 hu.yields.1, e, hd.append he', hea⟩, ?_, fun n => ?_⟩
  · rw [tokensOf_append hmeets ht.yields.1 hu.yields.1]
    intro x hx
    rw [List.head?_append, List.head?_map] at hx
    cases hhead : (tokensOf t).head? with
    | some y =>
      rw [hhead] at hx
      obtain rfl := Option.some.inj hx
      exact ht.opens y hhead
    | none =>
      rw [hhead] at hx
      obtain ⟨y, hy, rfl⟩ := Option.map_eq_some_iff.mp hx
      rw [Token.kind_shift]
      exact hu.opens y hy
  · rw [List.map_cons, hu.fixed]
    exact congrArg (· :: nodes) (List.cons.inj (ht.fixed n)).1

/-! ## Attributes -/

theorem attributeText_of_isPlain {text : String} (h : ∀ c ∈ text.toList, isPlain c = true) :
    Render.attributeText text = text := by
  rw [Render.attributeText, escapeAttribute_of_isPlain h, String.ofList_toList]

/-- Static attributes are written as texts that are read as the attributes. -/
theorem emits_attributes {as : List Attribute} (h : ∀ a ∈ as, a.Static) :
    ∃ (attrs : List (List Char × Attribute)) (t : String), attrs.map (·.2) = as
      ∧ (∀ x ∈ attrs, AttributeText x.1 x.2) ∧ t.toList = (attrs.map (·.1)).flatten
      ∧ ∀ (r : Rendering) (scope : Bindings),
        Emits r.sink (Render.attributes r scope as) () t := by
  induction as with
  | nil => exact ⟨[], "", rfl, by simp, rfl, fun r scope => emits_pure⟩
  | cons a as ih =>
    obtain ⟨ha, h⟩ := List.forall_mem_cons.mp h
    obtain ⟨attrs, t, hattrs, htexts, ht, hemits⟩ := ih h
    obtain ⟨name, value⟩ := a
    obtain ⟨hn, rfl | ⟨text, rfl, htext⟩⟩ := ha
    · refine ⟨(_, _) :: attrs, (" " ++ name) ++ t, ?_,
        List.forall_mem_cons.mpr ⟨attributeText_bare hn, htexts⟩, ?_, fun r scope => ?_⟩
      · rw [List.map_cons, hattrs]
      · simp [ht]
      · rw [Render.attributes]
        exact emits_write.bind (hemits r scope)
    · refine ⟨(_, _) :: attrs, (" " ++ name) ++ ("=\"" ++ (text ++ ("\"" ++ t))), ?_,
        List.forall_mem_cons.mpr ⟨attributeText_literal hn htext, htexts⟩, ?_, fun r scope => ?_⟩
      · rw [List.map_cons, hattrs]
      · simp [ht, valueText, quoted]
      · rw [Render.attributes]
        have hvalue : Emits r.sink (Render.attributeValue r scope (.literal text)) () text := by
          rw [Render.attributeValue, attributeText_of_isPlain htext]
          exact emits_write
        exact emits_write.bind (emits_write.bind (hvalue.bind (emits_write.bind (hemits r scope))))

/-! ## Elements -/

theorem PlainName.ne_empty {n : String} (hn : PlainName n) : n ≠ "" := by
  rintro rfl
  obtain ⟨value, pos, stop, as, has⟩ := hn.head_atom
  rw [atomsOf_of_scan (s := "".toList) (by cbv)] at has
  cases has

theorem closingName_some {name m : String} (hm : PlainName m) :
    Render.closingName name (some m) = m := if_neg hm.ne_empty

/-- A node that is written as a text that is read as the node. -/
def Node.Returns (node : Node) : Prop :=
  ∃ t : String, NodesText t.toList [node] ∧ EndsTag t.toList
    ∧ ∀ (r : Rendering) (scope : Bindings), Emits r.sink (Render.node r scope node) scope t

/-- Nodes that are written as texts that are read as them are written as a text of all of them. -/
theorem emits_nodes {nodes : List Node} (h : ∀ node ∈ nodes, node.Returns) :
    ∃ t : String, NodesText t.toList nodes
      ∧ ∀ (r : Rendering) (scope : Bindings),
        Emits r.sink (Render.nodes r scope nodes) scope t := by
  induction nodes with
  | nil => exact ⟨"", nodesText_nil, fun r scope => by rw [Render.nodes]; exact emits_pure⟩
  | cons node nodes ih =>
    obtain ⟨⟨t, ht, hends, hemit⟩, h⟩ := List.forall_mem_cons.mp h
    obtain ⟨u, hu, hemits⟩ := ih h
    refine ⟨t ++ u, ?_, fun r scope => ?_⟩
    · rw [String.toList_append]
      exact ht.cons hends hu
    · rw [Render.nodes]
      exact (hemit r scope).bind (hemits r scope)

theorem opens_of_head {t : List Char} (h : (Cursor.ofText t).head.kind = .lt) :
    ∀ u ∈ (tokensOf t).head?, u.kind = .lt := by
  intro u hu
  obtain ⟨us, hus⟩ := List.head?_eq_some_iff.mp hu
  rwa [Window.head_of_ahead (c := Cursor.ofText t) hus] at h

/-- The attributes of a start tag have no offsets in them. -/
theorem shift_attributes {attrs : List (List Char × Attribute)}
    (h : ∀ x ∈ attrs, AttributeText x.1 x.2) (n : Nat) :
    (attrs.map (·.2)).map (Attribute.shift n) = attrs.map (·.2) := by
  rw [List.map_map]
  exact List.map_congr_left fun x hx => (h x hx).fixed n

theorem Node.Static.returns {node : Node} (h : node.Static) : node.Returns := by
  induction h with
  | @selfClosing name as hn ha =>
    obtain ⟨attrs, t, rfl, htexts, ht, hemits⟩ := emits_attributes ha
    have htext : (("<" ++ name) ++ (t ++ " />")).toList = tagText name attrs true := by
      simp [tagText, attributesText, tagEnd, ht]
    refine ⟨("<" ++ name) ++ (t ++ " />"), ?_, ?_, fun r scope => ?_⟩
    · rw [htext]
      refine ⟨yields_selfClosing hn htexts, ?_, fun n => ?_⟩
      · exact opens_of_head (isAt_tagText hn htexts (at_ofText _))
      · simp only [List.map_cons, List.map_nil, Node.shift, shift_attributes htexts,
          Node.shiftAll_eq_map]
    · rw [htext]
      exact (endsTag_tagText hn _ htexts).2
    · rw [Render.node]
      have hend : Emits r.sink (Render.write r " />") () " />" := emits_write
      exact emits_write.bind ((hemits r scope).bind hend.then_pure)
  | @closed name m as children hn ha hc hm ih =>
    obtain ⟨attrs, t, rfl, htexts, ht, hemits⟩ := emits_attributes ha
    obtain ⟨u, hu, hbody⟩ := emits_nodes ih
    have htext : (("<" ++ name) ++ (t ++ (">" ++ (u ++ ("</" ++ m ++ ">"))))).toList
        = elementText name attrs u.toList m := by
      simp [elementText, closeTagText, tagText, attributesText, tagEnd, ht]
    refine ⟨("<" ++ name) ++ (t ++ (">" ++ (u ++ ("</" ++ m ++ ">")))), ?_, ?_, fun r scope => ?_⟩
    · rw [htext]
      have hyields := yields_element hn hm htexts hu.yields
      rw [hu.fixed] at hyields
      refine ⟨hyields, ?_, fun n => ?_⟩
      · exact opens_of_head (head_elementText hn hm htexts hu.yields.1)
      · simp only [List.map_cons, List.map_nil, Node.shift, shift_attributes htexts,
          Node.shiftAll_eq_map, hu.fixed]
    · rw [htext]
      exact (endsTag_elementText hn hm htexts hu.yields.1).2
    · rw [Render.node]
      have hend : Emits r.sink (Render.write r ("</" ++ Render.closingName name (some m) ++ ">"))
          () ("</" ++ m ++ ">") := by
        rw [closingName_some hm]
        exact emits_write
      exact emits_write.bind ((hemits r scope).bind
        (emits_write.bind ((hbody r scope).bind hend.then_pure)))

/-! ## Documents -/

/-- Static elements are written without fail, as one and the same text wherever and with whatever
variables they are written, and that text parses to them. -/
theorem ofText?_render_static {nodes : List Node} (h : ∀ node ∈ nodes, node.Static) :
    ∃ t : String, (∀ (ev : Evaluator) (sink : Nat) (source : List Char) (scope : Bindings)
        (s : Store), (Render.document ev sink ⟨nodes, source⟩ scope s).outcome = .ok ()
          ∧ (Render.document ev sink ⟨nodes, source⟩ scope s).store.output sink
            = s.output sink ++ t)
      ∧ Document.ofText? t.toList = .ok ⟨nodes, t.toList⟩ := by
  obtain ⟨t, ht, hemits⟩ := emits_nodes fun node hnode => (h node hnode).returns
  refine ⟨t, fun ev sink source scope s => ?_, ?_⟩
  · have hdoc : Emits sink (Render.document ev sink ⟨nodes, source⟩ scope) () (t ++ "") :=
      (hemits ⟨ev, sink, source⟩ scope).bind emits_pure
    rw [String.append_empty] at hdoc
    exact hdoc s
  · obtain ⟨hs, d, hd, hnil⟩ := ht.yields
    exact ofText?_ok_iff.mpr ⟨⟨hs, d, items_readItem hd, hnil⟩, rfl⟩

/-- An element with another closing name, a name twice among its attributes, a bare attribute and an
empty value. -/
theorem ofText?_render_static_element :
    ∃ t : String, (∀ (ev : Evaluator) (sink : Nat) (source : List Char) (scope : Bindings)
        (s : Store), (Render.document ev sink ⟨[.element "p" [⟨"p-1", none⟩,
            ⟨"p", some (.literal "")⟩, ⟨"p", some (.literal "x y")⟩] false
            [.element "p" [] true [] none] (some "p-1")], source⟩ scope s).outcome = .ok ()
          ∧ (Render.document ev sink ⟨[.element "p" [⟨"p-1", none⟩,
            ⟨"p", some (.literal "")⟩, ⟨"p", some (.literal "x y")⟩] false
            [.element "p" [] true [] none] (some "p-1")], source⟩ scope s).store.output sink
            = s.output sink ++ t)
      ∧ Document.ofText? t.toList = .ok ⟨[.element "p" [⟨"p-1", none⟩,
            ⟨"p", some (.literal "")⟩, ⟨"p", some (.literal "x y")⟩] false
            [.element "p" [] true [] none] (some "p-1")], t.toList⟩ := by
  have hother : PlainName "p-1" :=
    ⟨⟨"p-1".toList, 3, 0, [.flat .ident "p" 0 1, .flat .punct "-" 1 2, .flat .number "1" 2 3]⟩,
      ⟨"p-1".toList, 3, 3, []⟩, by cbv, by decide, by cbv, rfl⟩
  refine ofText?_render_static (List.forall_mem_singleton.mpr (.closed plainName_p ?_ ?_ hother))
  · simp only [List.forall_mem_cons]
    exact ⟨⟨hother, .inl rfl⟩, ⟨plainName_p, .inr ⟨"", rfl, by simp⟩⟩,
      ⟨plainName_p, .inr ⟨"x y", rfl, List.all_eq_true.mp (by decide)⟩⟩, by simp⟩
  · exact List.forall_mem_singleton.mpr (.selfClosing plainName_p (by simp))

end MarkupTemplate
