import MarkupTemplate.Node.Read
import MarkupTemplate.Proofs.Cursor.Takes
import MarkupTemplate.Proofs.Node.Spot

/-!
# The grammar of templates

Which tokens each part of a template is made of, as inductive relations.

* `Cut`: the source text of tokens up to one that ends it.
* `Spelled`: the tokens of an expression, a closure, a conditional list or a head.
* `DerivesAttributes`: the tokens of attributes.
* `Derives`: the tokens of nodes, blocks, branches and arms.
-/
namespace MarkupTemplate

open Cursor Node

/-- The text `s` is the source of some tokens, none of which ends a fragment of the role. -/
structure Cut (source : List Char) (role : Role) (ts : List Token) (s : String) : Prop where
  ne_nil : ts ≠ []
  clear : ∀ t ∈ ts, role.stops t = false
  text_eq : s = sourceOf source ts

/-- The tokens of the items of a conditional list. -/
inductive DerivesItems (source : List Char) : List Token → List (String × String) → Prop where
  | nil : DerivesItems source [] []
  | last {t colon : Token} {ts : List Token} {s : String} (hl : t.isLiteral = true)
      (hc : colon.has .punct ":" = true) (hs : Cut source .item ts s) :
      DerivesItems source (t :: colon :: ts) [(t.value, s)]
  | cons {t colon comma : Token} {ts us : List Token} {s : String}
      {items : List (String × String)} (hl : t.isLiteral = true)
      (hc : colon.has .punct ":" = true) (hs : Cut source .item ts s)
      (hm : isComma comma = true) (h : DerivesItems source us items) :
      DerivesItems source (t :: colon :: (ts ++ comma :: us)) ((t.value, s) :: items)

/-- The tokens of a spot, up to the block or the arms that may follow. -/
inductive Spelled (source : List Char) : List Token → Spot → Prop where
  | expression {t : Token} {e : Expression} (hk : t.kind = .brace)
      (he : expressionOf e.context t = .ok e) : Spelled source [t] (.expression e)
  | statements {bar name bar' semi : Token} {ts : List Token} {s : String}
      (hb : bar.has .punct "|" = true) (hn : name.kind = .ident) (hb' : bar'.has .punct "|" = true)
      (hs : Cut source .statements ts s) (hh : ∀ t ∈ ts.head?, t.kind ≠ .brace)
      (he : semi.has .punct ";" = true) :
      Spelled source (bar :: name :: bar' :: (ts ++ [semi])) (.closure ⟨name.value, s, bar.pos⟩)
  | braced {bar name bar' t : Token} (hb : bar.has .punct "|" = true) (hn : name.kind = .ident)
      (hb' : bar'.has .punct "|" = true) (hk : t.kind = .brace)
      (hs : Text.isAllBlank t.inner.toList = false) :
      Spelled source [bar, name, bar', t] (.closure ⟨name.value, t.inner, bar.pos⟩)
  | conditions {t : Token} {items : List (String × String)} (hk : t.kind = .bracket)
      (h : DerivesItems source t.children items) : Spelled source [t] (.conditions items t.pos)
  | binding {t eq semi : Token} {ps vs : List Token} {p v : String}
      (ht : t.has .keyword "let" = true) (hp : Cut source .pattern ps p)
      (he : eq.has .punct "=" = true) (hv : Cut source .value vs v)
      (hs : semi.has .punct ";" = true) :
      Spelled source (t :: (ps ++ eq :: (vs ++ [semi]))) (.binding p v t.pos)
  | condition {t : Token} {ts : List Token} {s : String} (ht : t.has .keyword "let" = false)
      (h : Cut source .head (t :: ts) s) : Spelled source (t :: ts) (.branch s none t.pos)
  | pattern {t eq : Token} {ps ts : List Token} {p s : String}
      (ht : t.has .keyword "let" = true) (hp : Cut source .pattern ps p)
      (he : eq.has .punct "=" = true) (hs : Cut source .head ts s) :
      Spelled source (t :: (ps ++ eq :: ts)) (.branch s (some p) t.pos)
  | selection {t : Token} {ts : List Token} {s : String} (ht : t.has .keyword "match" = true)
      (h : Cut source .head ts s) : Spelled source (t :: ts) (.selection s t.pos)
  | arm {arrow : Token} {ps : List Token} {p : String} (hp : Cut source .arm ps p)
      (ha : arrow.kind = .arrow) : Spelled source (ps ++ [arrow]) (.arm p)
  | loop {t u : Token} {ps ts : List Token} {p s : String} (ht : t.has .keyword "for" = true)
      (hp : Cut source .binder ps p) (hu : u.has .keyword "in" = true)
      (hs : Cut source .head ts s) : Spelled source (t :: (ps ++ u :: ts)) (.loop p s t.pos)

/-- The tokens of literals and expressions of a context. -/
inductive DerivesParts (source : List Char) (context : EscapeContext) :
    List Token → List Part → Prop where
  | nil : DerivesParts source context [] []
  | literal {t : Token} {ts : List Token} {parts : List Part} (hl : t.isLiteral = true)
      (h : DerivesParts source context ts parts) :
      DerivesParts source context (t :: ts) (.literal t.value :: parts)
  | expression {t : Token} {e : Expression} {ts : List Token} {parts : List Part}
      (he : Spelled source [t] (.expression e)) (hc : e.context = context)
      (h : DerivesParts source context ts parts) :
      DerivesParts source context (t :: ts) (.expression e :: parts)

/-- The tokens of an attribute value. -/
inductive DerivesValue (source : List Char) : List Token → AttributeValue → Prop where
  | literal {t : Token} (hl : t.isLiteral = true) : DerivesValue source [t] (.literal t.value)
  | expression {ts : List Token} {e : Expression} (h : Spelled source ts (.expression e))
      (hc : e.context = .attr) : DerivesValue source ts (.expression e)
  | conditional {ts : List Token} {items : List (String × String)} {pos : Nat}
      (h : Spelled source ts (.conditions items pos)) :
      DerivesValue source ts (.conditional items pos)
  | concat {t : Token} {parts : List Part} (hk : t.kind = .paren)
      (h : DerivesParts source .attr t.children parts) :
      DerivesValue source [t] (.concat (parts.map .ofPart))
  | closure {ts : List Token} {v : Closure} (h : Spelled source ts (.closure v)) :
      DerivesValue source ts (.closure v)

/-- The tokens of attributes. -/
inductive DerivesAttributes (source : List Char) : List Token → List Attribute → Prop where
  | nil : DerivesAttributes source [] []
  | bare {ns ts : List Token} {name : String} {attributes : List Attribute} (hn : Name ns name)
      (h : DerivesAttributes source ts attributes) :
      DerivesAttributes source (ns ++ ts) (⟨name, none⟩ :: attributes)
  | valued {eq : Token} {ns vs ts : List Token} {name : String} {v : AttributeValue}
      {attributes : List Attribute} (hn : Name ns name) (he : eq.has .punct "=" = true)
      (hv : DerivesValue source vs v) (h : DerivesAttributes source ts attributes) :
      DerivesAttributes source (ns ++ eq :: (vs ++ ts)) (⟨name, some v⟩ :: attributes)

/-- What the tokens of a template can be read as. -/
inductive Phrase where
  | node (node : Node)
  | nodes (nodes : List Node)
  /-- A brace group with nodes. -/
  | block (nodes : List Node)
  /-- What an arm yields: a block or one node. -/
  | body (nodes : List Node)
  | branches (branches : List Branch) (otherwise : Option (List Node))
  | arms (arms : List Arm)

/-- The tokens of nodes. -/
inductive Derives (source : List Char) : List Token → Phrase → Prop where
  | text {t : Token} (hl : t.isLiteral = true) : Derives source [t] (.node (.text t.value))
  /-- A closing tag that closes no element is text. -/
  | stray {ts : List Token} {name : String} (h : CloseTag ts name) :
      Derives source ts (.node (.text ("</" ++ name ++ ">")))
  | expression {ts : List Token} {e : Expression} (h : Spelled source ts (.expression e))
      (hc : e.context = .text) : Derives source ts (.node (.expression e))
  | closure {ts : List Token} {v : Closure} (h : Spelled source ts (.closure v)) :
      Derives source ts (.node (.closure v))
  | void {lt close : Token} {ns as : List Token} {name : String} {attributes : List Attribute}
      (hl : lt.kind = .lt) (hn : Name ns name) (ha : DerivesAttributes source as attributes)
      (hc : close.kind = .selfClose) : Derives source (lt :: (ns ++ (as ++ [close])))
        (.node (.element name attributes true [] none))
  | element {lt gt : Token} {ns as ts cs : List Token} {name closeName : String}
      {attributes : List Attribute} {children : List Node} (hl : lt.kind = .lt)
      (hn : Name ns name) (ha : DerivesAttributes source as attributes) (hg : gt.kind = .gt)
      (h : Derives source ts (.nodes children)) (hc : CloseTag cs closeName) :
      Derives source (lt :: (ns ++ (as ++ gt :: (ts ++ cs))))
        (.node (.element name attributes false children (some closeName)))
  | comment {t close : Token} {ts : List Token} {parts : List Part} (ht : t.kind = .commentOpen)
      (h : DerivesParts source .comment ts parts) (hc : close.kind = .commentClose) :
      Derives source (t :: (ts ++ [close])) (.node (.comment parts))
  | cdata {t outer inner gt : Token} {parts : List Part} (ht : t.kind = .declaration)
      (ho : outer.kind = .bracket) (hi : cdataBody? outer = some inner) (hg : gt.kind = .gt)
      (h : DerivesParts source .cdata inner.children parts) :
      Derives source [t, outer, gt] (.node (.cdata parts))
  | doctype {t gt : Token} {ts : List Token} (ht : t.kind = .declaration) (hne : ts ≠ [])
      (hg : gt.kind = .gt) :
      Derives source (t :: (ts ++ [gt])) (.node (.doctype (joinedOf source ts)))
  | instruction {t close : Token} {ts : List Token} (ht : t.kind = .instruction)
      (hc : close.kind = .instructionEnd) :
      Derives source (t :: (ts ++ [close])) (.node (.instruction (joinedOf source ts)))
  | binding {ts : List Token} {p v : String} {pos : Nat}
      (h : Spelled source ts (.binding p v pos)) : Derives source ts (.node (.binding p v pos))
  | choice {t : Token} {ts : List Token} {branches : List Branch}
      {otherwise : Option (List Node)} (ht : t.has .keyword "if" = true)
      (h : Derives source ts (.branches branches otherwise)) :
      Derives source (t :: ts) (.node (.choice branches otherwise))
  | selection {g : Token} {ts : List Token} {s : String} {arms : List Arm} {pos : Nat}
      (hs : Spelled source ts (.selection s pos)) (hg : g.kind = .brace)
      (h : Derives source g.children (.arms arms)) :
      Derives source (ts ++ [g]) (.node (.selection s arms pos))
  | loop {ts us : List Token} {p s : String} {body : List Node} {pos : Nat}
      (hs : Spelled source ts (.loop p s pos)) (h : Derives source us (.block body)) :
      Derives source (ts ++ us) (.node (.loop p s body pos))
  | noNodes : Derives source [] (.nodes [])
  | nodes {ts us : List Token} {node : Node} {nodes : List Node}
      (h : Derives source ts (.node node)) (hs : Derives source us (.nodes nodes)) :
      Derives source (ts ++ us) (.nodes (node :: nodes))
  | block {g : Token} {nodes : List Node} (hg : g.kind = .brace)
      (h : Derives source g.children (.nodes nodes)) : Derives source [g] (.block nodes)
  | blockBody {ts : List Token} {nodes : List Node} (h : Derives source ts (.block nodes)) :
      Derives source ts (.body nodes)
  | nodeBody {ts : List Token} {node : Node} (h : Derives source ts (.node node)) :
      Derives source ts (.body [node])
  | branch {ts us : List Token} {s : String} {p : Option String} {body : List Node} {pos : Nat}
      (hs : Spelled source ts (.branch s p pos)) (h : Derives source us (.block body)) :
      Derives source (ts ++ us) (.branches [.mk s body p pos] none)
  | otherwise {t : Token} {ts us vs : List Token} {s : String} {p : Option String}
      {body nodes : List Node} {pos : Nat} (hs : Spelled source ts (.branch s p pos))
      (h : Derives source us (.block body)) (ht : t.has .keyword "else" = true)
      (ho : Derives source vs (.block nodes)) :
      Derives source (ts ++ (us ++ t :: vs)) (.branches [.mk s body p pos] (some nodes))
  | elseIf {t u : Token} {ts us vs : List Token} {s : String} {p : Option String}
      {body : List Node} {pos : Nat} {branches : List Branch} {otherwise : Option (List Node)}
      (hs : Spelled source ts (.branch s p pos)) (h : Derives source us (.block body))
      (ht : t.has .keyword "else" = true) (hu : u.has .keyword "if" = true)
      (ho : Derives source vs (.branches branches otherwise)) :
      Derives source (ts ++ (us ++ t :: u :: vs))
        (.branches (.mk s body p pos :: branches) otherwise)
  | noArms : Derives source [] (.arms [])
  | arm {ts us cs vs : List Token} {p : String} {body : List Node} {arms : List Arm}
      (hs : Spelled source ts (.arm p)) (h : Derives source us (.body body))
      (hc : cs = [] ∨ ∃ comma, cs = [comma] ∧ isComma comma = true)
      (ha : Derives source vs (.arms arms)) :
      Derives source (ts ++ (us ++ (cs ++ vs))) (.arms (.mk p body :: arms))

end MarkupTemplate
