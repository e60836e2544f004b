import MarkupTemplate.Proofs.Node.Context
import MarkupTemplate.Proofs.Sealed
import MarkupTemplate.Proofs.StartTag

/-!
# Markup of a rendering

A document of texts, expressions, elements, declarations, processing instructions and bindings has
a skeleton: what is left of it without its values. Values are escaped wherever they are written, so
a rendering has the `<` and `>` of the skeleton, and its start tags have the quotes of the
skeleton's start tags.

* `Node.Plain`: the nodes of such a document.
* `Escape.filter_escapeText`, `Escape.filter_escapeAttribute`: escaped texts hold no delimiters.
* `Node.skeleton`, `Node.skeletonTags`: a node without its values, and its start tags.
* `shows_nodes`: what a rendering writes of `<` and `>`.
* `answers_nodesTags`: what the start tags of a rendering hold of `<`, `>` and quotes.
-/
namespace MarkupTemplate

open MarkupTemplate.Action

/-! ## Delimiters -/

/-- True of the characters that open and close tags. -/
def isAngle (c : Char) : Bool := c == '<' || c == '>'

/-- True of the characters that open and close tags and attribute values. -/
def isDelimiter (c : Char) : Bool := isAngle c || c == '"' || c == '\x27'

theorem isDelimiter_of_isAngle {c : Char} (h : isAngle c = true) : isDelimiter c = true := by
  rw [isDelimiter, h]
  rfl

namespace Escape

variable {p : Char → Bool}

theorem filter_replaceChar {c : Char} {entity : String} (he : entity.toList.filter p = [])
    (text : List Char) :
    (replaceChar c entity text).filter p = (text.filter p).filter (· != c) := by
  induction text with
  | nil => rfl
  | cons d text ih =>
    have hcons : replaceChar c entity (d :: text)
        = (if d = c then entity.toList else [d]) ++ replaceChar c entity text := by
      rw [replaceChar, List.flatMap_cons]
      rfl
    rw [hcons, List.filter_append, ih]
    by_cases hd : d = c
    · rw [if_pos hd, he, List.nil_append, List.filter_cons]
      cases p d <;> simp [hd]
    · rw [if_neg hd, List.filter_cons, List.filter_cons]
      cases p d <;> simp [hd]

theorem filter_eq_nil_of_entity (entity : String) (hp : ∀ c, p c = true → isDelimiter c = true)
    (he : entity.toList.all (!isDelimiter ·) = true) : entity.toList.filter p = [] := by
  rw [List.filter_eq_nil_iff]
  intro c hc hpc
  have hno := List.all_eq_true.mp he c hc
  rw [hp c hpc] at hno
  cases hno

/-- What is left of an escaped text among the delimiters. -/
theorem filter_escapeText_eq (hp : ∀ c, p c = true → isDelimiter c = true) (text : List Char) :
    (escapeText text).filter p
      = (((text.filter p).filter (· != '&')).filter (· != '<')).filter (· != '>') := by
  have hentity := fun entity => filter_eq_nil_of_entity entity hp
  rw [escapeText, filter_replaceChar (hentity _ (by decide)),
    filter_replaceChar (hentity _ (by decide)),
    filter_replaceChar (hentity _ (by decide))]

/-- A text that is escaped between tags opens and closes none. -/
theorem filter_escapeText (hp : ∀ c, p c = true → isAngle c = true) (text : List Char) :
    (escapeText text).filter p = [] := by
  rw [filter_escapeText_eq fun c hc => isDelimiter_of_isAngle (hp c hc)]
  simp only [List.filter_filter, List.filter_eq_nil_iff, Bool.and_eq_true, bne_iff_ne]
  rintro c - ⟨hgt, hlt, -, hc⟩
  have hangle := hp c hc
  simp only [isAngle, Bool.or_eq_true, beq_iff_eq] at hangle
  rcases hangle with h | h
  · exact hlt h
  · exact hgt h

/-- A text that is escaped in an attribute value ends neither the value nor its tag. -/
theorem filter_escapeAttribute (hp : ∀ c, p c = true → isDelimiter c = true) (text : List Char) :
    (escapeAttribute text).filter p = [] := by
  have hentity := fun entity => filter_eq_nil_of_entity entity hp
  rw [escapeAttribute, filter_replaceChar (hentity _ (by decide)),
    filter_replaceChar (hentity _ (by decide)), filter_escapeText_eq hp]
  simp only [List.filter_filter, List.filter_eq_nil_iff, Bool.and_eq_true, bne_iff_ne]
  rintro c - ⟨hquote, hsingle, hgt, hlt, -, hc⟩
  have hdelimiter := hp c hc
  simp only [isDelimiter, isAngle, Bool.or_eq_true, beq_iff_eq] at hdelimiter
  rcases hdelimiter with ((h | h) | h) | h
  · exact hlt h
  · exact hgt h
  · exact hquote h
  · exact hsingle h

end Escape

/-! ## Plain nodes -/

/-- A literal, an expression, a conditional list or a concatenation of such values. -/
inductive AttributeValue.Plain : AttributeValue → Prop where
  | literal (text : String) : Plain (.literal text)
  | expression (e : Expression) : Plain (.expression e)
  | conditional (items : List (String × String)) (pos : Nat) : Plain (.conditional items pos)
  | concat {parts : List AttributeValue} (h : ∀ part ∈ parts, Plain part) : Plain (.concat parts)

/-- An attribute whose value, if there is one, is plain. -/
def Attribute.Plain (a : Attribute) : Prop := ∀ v ∈ a.value, v.Plain

/-- A text, an expression, a declaration, a processing instruction, a binding, or an element of
plain attributes and plain nodes. -/
inductive Node.Plain : Node → Prop where
  | text (value : String) : Plain (.text value)
  | expression (e : Expression) : Plain (.expression e)
  | element {name : String} {attributes : List Attribute} {selfClosing : Bool}
      {children : List Node} {closeName : Option String} (ha : ∀ a ∈ attributes, a.Plain)
      (hc : ∀ child ∈ children, Plain child) :
      Plain (.element name attributes selfClosing children closeName)
  | doctype (payload : String) : Plain (.doctype payload)
  | instruction (payload : String) : Plain (.instruction payload)
  | binding (pattern value : String) (pos : Nat) : Plain (.binding pattern value pos)

theorem Node.InContext.of_expression {e : Expression} (h : (Node.expression e).InContext) :
    e.context = .text := by
  cases h with
  | expression h => exact h
  | other he => exact absurd rfl (he e)

theorem Node.InContext.of_element {name : String} {attributes : List Attribute}
    {selfClosing : Bool} {children : List Node} {closeName : Option String}
    (h : (Node.element name attributes selfClosing children closeName).InContext) :
    (∀ a ∈ attributes, a.InContext) ∧ ∀ child ∈ children, child.InContext := by
  cases h with
  | element ha hc => exact ⟨ha, hc⟩
  | other _ hn => exact (hn _ _ _ _ _ rfl).elim

/-! ## Skeletons -/

/-- An attribute without its value. -/
def Attribute.skeleton (a : Attribute) : String :=
  " " ++ a.name ++ if a.value.isSome then "=\"\"" else ""

/-- A start tag without the values of its attributes. -/
def startTagSkeleton (name : String) (attributes : List Attribute) (selfClosing : Bool) : String :=
  "<" ++ name ++ String.join (attributes.map Attribute.skeleton)
    ++ if selfClosing then " />" else ">"

mutual

/-- A plain node without its values. -/
def Node.skeleton : Node → String
  | .text s => s
  | .element name attributes selfClosing children closeName =>
    startTagSkeleton name attributes selfClosing
      ++ if selfClosing then "" else
        Node.skeletonAll children ++ ("</" ++ Render.closingName name closeName ++ ">")
  | .doctype payload => "<!" ++ payload ++ ">"
  | .instruction payload => "<?" ++ payload ++ "?>"
  | _ => ""

/-- Plain nodes without their values. -/
def Node.skeletonAll : List Node → String
  | [] => ""
  | n :: rest => n.skeleton ++ Node.skeletonAll rest

end

mutual

/-- The start tags of a plain node, without the values in them. -/
def Node.skeletonTags : Node → List String
  | .element name attributes selfClosing children _ =>
    startTagSkeleton name attributes selfClosing
      :: if selfClosing then [] else Node.skeletonTagsAll children
  | _ => []

/-- The start tags of plain nodes, without the values in them. -/
def Node.skeletonTagsAll : List Node → List String
  | [] => []
  | n :: rest => n.skeletonTags ++ Node.skeletonTagsAll rest

end

/-! ## Values -/

namespace Render

variable {r : Rendering} {p : Char → Bool}

theorem shows_expression (h : r.evaluator.language.Discreet r.sink) {e : Expression}
    (he : ∀ text s, escape? e.context text = some s → s.toList.filter p = []) (scope : Bindings) :
    Shows r.sink p (expression r e scope) [] := by
  have hformat : Shows r.sink p (formatted r e scope) [] :=
    ((Evaluator.shows_evaluate h _ _).bind fun v => Evaluator.shows_format h v _).mapFailure
  refine hformat.bind fun text => ?_
  unfold escaped
  cases hs : escape? e.context text with
  | none => exact shows_of_fails fun s a ho => by cases ho
  | some s =>
    rw [pure_bind, ← he text s hs]
    exact shows_write

theorem filter_escape_text (hp : ∀ c, p c = true → isAngle c = true) {text s : String}
    (h : escape? .text text = some s) : s.toList.filter p = [] := by
  obtain rfl := Option.some.inj h
  rw [String.toList_ofList]
  exact Escape.filter_escapeText hp _

theorem filter_escape_attr (hp : ∀ c, p c = true → isDelimiter c = true) {text s : String}
    (h : escape? .attr text = some s) : s.toList.filter p = [] := by
  obtain rfl := Option.some.inj h
  rw [String.toList_ofList]
  exact Escape.filter_escapeAttribute hp _

theorem filter_attributeText (hp : ∀ c, p c = true → isDelimiter c = true) (text : String) :
    (attributeText text).toList.filter p = [] := by
  rw [attributeText, String.toList_ofList]
  exact Escape.filter_escapeAttribute hp _

theorem shows_conditional (h : r.evaluator.language.Discreet r.sink)
    (hp : ∀ c, p c = true → isDelimiter c = true) (pos : Nat) (scope : Bindings)
    (items : List (String × String)) : Shows r.sink p (conditional r pos scope items) [] := by
  induction items with
  | nil => exact shows_pure
  | cons item items ih =>
    obtain ⟨text, condition⟩ := item
    have htest : Shows r.sink p (located r pos (r.evaluator.test condition scope)) [] :=
      (Evaluator.shows_test h condition scope).mapFailure
    have hblank : (attributeText text ++ " ").toList.filter p = [] := by
      have hp' : p ' ' = false := by
        cases hb : p ' ' with
        | false => rfl
        | true => exact absurd (hp _ hb) (by decide)
      rw [String.toList_append, List.filter_append, filter_attributeText hp, List.nil_append]
      rw [show " ".toList = [' '] from rfl, List.filter_cons, hp']
      rfl
    have hwrite : Shows r.sink p (write r (attributeText text ++ " ")) [] := by
      rw [← hblank]
      exact shows_write
    rw [conditional]
    refine htest.bind fun b => ?_
    cases b with
    | true => exact hwrite.bind fun _ => ih
    | false => exact ih

theorem shows_concatenated {scope : Bindings} {parts : List AttributeValue}
    (h : ∀ part ∈ parts, Shows r.sink p (attributeValue r scope part) []) :
    Shows r.sink p (concatenated r scope parts) [] := by
  induction parts with
  | nil =>
    rw [concatenated]
    exact shows_pure
  | cons part parts ih =>
    obtain ⟨hpart, h⟩ := List.forall_mem_cons.mp h
    rw [concatenated]
    exact hpart.bind fun _ => ih h

/-- The value of an attribute shows no delimiter, whatever its expressions give. -/
theorem shows_attributeValue (h : r.evaluator.language.Discreet r.sink)
    (hp : ∀ c, p c = true → isDelimiter c = true) {v : AttributeValue} (hv : v.Plain)
    (hc : v.InContext) (scope : Bindings) : Shows r.sink p (attributeValue r scope v) [] := by
  induction hv with
  | literal text =>
    rw [attributeValue, ← filter_attributeText hp text]
    exact shows_write
  | expression e =>
    cases hc with
    | expression he =>
      rw [attributeValue]
      exact shows_expression h (fun text s hs => filter_escape_attr hp (he ▸ hs)) scope
  | conditional items pos =>
    rw [attributeValue]
    exact shows_conditional h hp pos scope items
  | concat _ ih =>
    cases hc with
    | concat hc =>
      rw [attributeValue]
      exact shows_concatenated fun part hpart => ih part hpart (hc part hpart)

/-! ## Start tags and nodes -/

theorem shows_attributes (h : r.evaluator.language.Discreet r.sink)
    (hp : ∀ c, p c = true → isDelimiter c = true) (scope : Bindings) {as : List Attribute}
    (ha : ∀ a ∈ as, a.Plain) (hc : ∀ a ∈ as, a.InContext) :
    Shows r.sink p (attributes r scope as)
      ((String.join (as.map Attribute.skeleton)).toList.filter p) := by
  induction as with
  | nil => exact shows_pure
  | cons a as ih =>
    obtain ⟨ha, has⟩ := List.forall_mem_cons.mp ha
    obtain ⟨hc, hcs⟩ := List.forall_mem_cons.mp hc
    have hrest := ih has hcs
    obtain ⟨name, value⟩ := a
    rw [attributes]
    cases value with
    | none =>
      refine (shows_write.bind fun _ => hrest).of_eq ?_
      rw [← List.filter_append]
      exact congrArg _ (by simp [Attribute.skeleton, String.join_cons])
    | some v =>
      have hvalue := shows_attributeValue h hp (ha v rfl) (hc v rfl) scope
      refine (shows_write.bind fun _ => shows_write.bind fun _ => hvalue.bind fun _ =>
        shows_write.bind fun _ => hrest).of_eq ?_
      rw [List.nil_append, ← List.filter_append, ← List.filter_append, ← List.filter_append]
      exact congrArg _ (by simp [Attribute.skeleton, String.join_cons])

theorem shows_startTag (h : r.evaluator.language.Discreet r.sink)
    (hp : ∀ c, p c = true → isDelimiter c = true) (scope : Bindings) (name : String)
    {as : List Attribute} (ha : ∀ a ∈ as, a.Plain) (hc : ∀ a ∈ as, a.InContext)
    (selfClosing : Bool) :
    Shows r.sink p (startTag r scope name as selfClosing)
      ((startTagSkeleton name as selfClosing).toList.filter p) := by
  refine (shows_write.bind fun _ => (shows_attributes h hp scope ha hc).bind fun _ =>
    shows_write).of_eq ?_
  rw [← List.filter_append, ← List.filter_append]
  exact congrArg _ (by simp [startTagSkeleton])

theorem shows_nodes_of_forall {ns : List Node}
    (hn : ∀ n ∈ ns, ∀ scope, Shows r.sink p (node r scope n) (n.skeleton.toList.filter p))
    (scope : Bindings) :
    Shows r.sink p (nodes r scope ns) ((Node.skeletonAll ns).toList.filter p) := by
  induction ns generalizing scope with
  | nil =>
    rw [nodes]
    exact shows_pure
  | cons n ns ih =>
    obtain ⟨hfirst, hn⟩ := List.forall_mem_cons.mp hn
    rw [nodes, Node.skeletonAll, String.toList_append, List.filter_append]
    exact (hfirst scope).bind fun b => ih hn b

/-- A plain node shows the `<` and `>` of its skeleton. -/
theorem shows_node (h : r.evaluator.language.Discreet r.sink) {n : Node} (hn : n.Plain)
    (hc : n.InContext) (scope : Bindings) :
    Shows r.sink isAngle (node r scope n) (n.skeleton.toList.filter isAngle) := by
  induction hn generalizing scope with
  | text s =>
    rw [node, Node.skeleton]
    exact (shows_write.bind fun _ => shows_pure).of_eq (List.append_nil _)
  | expression e =>
    have he := hc.of_expression
    rw [node]
    exact (shows_expression h (fun text s hs => filter_escape_text (fun _ hc => hc) (he ▸ hs))
      scope).bind fun _ => shows_pure
  | @element name as selfClosing children closeName ha _ ih =>
    obtain ⟨hca, hcc⟩ := hc.of_element
    have htag := shows_startTag h (fun _ => isDelimiter_of_isAngle) scope name ha hca selfClosing
    have hchildren := shows_nodes_of_forall (fun child hm => ih child hm (hcc child hm)) scope
    rw [node_element, Node.skeleton]
    cases selfClosing with
    | true => exact (htag.bind fun _ => shows_pure).of_eq (by simp)
    | false =>
      refine (htag.bind fun _ => hchildren.bind fun _ => shows_write.bind fun _ =>
        shows_pure).of_eq ?_
      rw [List.append_nil, ← List.filter_append, ← List.filter_append]
      exact congrArg _ (by simp)
  | doctype payload =>
    rw [node, Node.skeleton]
    exact (shows_write.bind fun _ => shows_pure).of_eq (List.append_nil _)
  | instruction payload =>
    rw [node, Node.skeleton]
    exact (shows_write.bind fun _ => shows_pure).of_eq (List.append_nil _)
  | binding pattern value pos =>
    rw [node]
    exact ((Evaluator.shows_evaluate h _ _).bind fun v =>
      (Evaluator.shows_bind h _ v _).bind fun b => shows_pure).mapFailure

theorem shows_nodes (h : r.evaluator.language.Discreet r.sink) {ns : List Node}
    (hn : ∀ n ∈ ns, n.Plain) (hc : ∀ n ∈ ns, n.InContext) (scope : Bindings) :
    Shows r.sink isAngle (nodes r scope ns) ((Node.skeletonAll ns).toList.filter isAngle) :=
  shows_nodes_of_forall (fun n hm => shows_node h (hn n hm) (hc n hm)) scope

/-! ## Start tags of nodes -/

/-- The delimiters in each of some texts. -/
def delimiters (texts : List String) : List (List Char) := texts.map (·.toList.filter isDelimiter)

theorem delimiters_append (ts us : List String) :
    delimiters (ts ++ us) = delimiters ts ++ delimiters us := List.map_append

theorem delimiters_cons (t : String) (ts : List String) :
    delimiters (t :: ts) = t.toList.filter isDelimiter :: delimiters ts := rfl

theorem answers_nodesTags_of_forall {ns : List Node}
    (hn : ∀ n ∈ ns, ∀ scope, Answers (nodeTags r scope n)
      fun x => delimiters x.1 = delimiters n.skeletonTags) (scope : Bindings) :
    Answers (nodesTags r scope ns)
      fun x => delimiters x.1 = delimiters (Node.skeletonTagsAll ns) := by
  induction ns generalizing scope with
  | nil =>
    rw [nodesTags]
    exact answers_pure rfl
  | cons n ns ih =>
    obtain ⟨hfirst, hn⟩ := List.forall_mem_cons.mp hn
    rw [nodesTags, Node.skeletonTagsAll]
    refine (hfirst scope).bind fun x hx => (ih hn x.2).bind fun y hy => answers_pure ?_
    rw [delimiters_append, delimiters_append, hx, hy]

/-- The start tags of a plain node have the delimiters of those of its skeleton. -/
theorem answers_nodeTags (h : r.evaluator.language.Discreet r.sink) {n : Node} (hn : n.Plain)
    (hc : n.InContext) (scope : Bindings) :
    Answers (nodeTags r scope n) fun x => delimiters x.1 = delimiters n.skeletonTags := by
  induction hn generalizing scope with
  | @element name as selfClosing children closeName ha _ ih =>
    obtain ⟨hca, hcc⟩ := hc.of_element
    have htag := answers_written (shows_startTag h (fun _ h => h) scope name ha hca selfClosing)
    have hchildren := answers_nodesTags_of_forall (r := r)
      (fun child hm => ih child hm (hcc child hm)) scope
    rw [nodeTags, Node.skeletonTags]
    refine htag.bind fun tag ht => ?_
    cases selfClosing with
    | true =>
      refine answers_pure ?_
      rw [delimiters_cons, delimiters_cons, ht]
      rfl
    | false =>
      refine hchildren.bind fun x hx => (answers_true _).bind fun _ _ => answers_pure ?_
      rw [delimiters_cons, delimiters_cons, ht, hx]
      rfl
  | text | expression | doctype | instruction | binding =>
    rw [nodeTags]
    · exact (answers_true _).bind fun _ _ => answers_pure rfl
    · simp

theorem answers_nodesTags (h : r.evaluator.language.Discreet r.sink) {ns : List Node}
    (hn : ∀ n ∈ ns, n.Plain) (hc : ∀ n ∈ ns, n.InContext) (scope : Bindings) :
    Answers (nodesTags r scope ns)
      fun x => delimiters x.1 = delimiters (Node.skeletonTagsAll ns) :=
  answers_nodesTags_of_forall (fun n hm => answers_nodeTags h (hn n hm) (hc n hm)) scope

end Render

end MarkupTemplate
