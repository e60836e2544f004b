import MarkupTemplate.Proofs.Node.Grammar
import MarkupTemplate.Proofs.Node.Head
import MarkupTemplate.Proofs.Token.Layout

/-!
# The spots of nodes lie in their tokens

The spots of a node, in rendering order, lie in the tokens of the node one after the other. What a
spot needs to know of its left neighbour is that a branch follows `if`, and that nothing that could
run into host code stands before the pattern of an arm.

* `Token.isDivider`: a token that ends before host code starts.
* `Spot.Made`: a spot with its tokens and its left neighbour.
* `Derives.ends`: a node ends in a divider.
* `Derives.laid`: the spots of what is derived lie in its tokens.
-/
namespace MarkupTemplate

open Node

/-- True of a token that host code may follow: no plain word, and no punctuation but that of the
grammar. -/
def Token.isDivider (t : Token) : Bool :=
  match t.kind with
  | .ident => false
  | .punct => [",", ";", "=", "|", ":"].contains t.value
  | _ => true

/-- What stands to the left of a spot. -/
def Spot.Behind (left : Option Token) : Spot → Prop
  | branch _ _ _ => ∃ t, left = some t ∧ t.has .keyword "if" = true
  | arm _ => ∀ t ∈ left, t.isDivider = true
  | _ => True

/-- The tokens of a spot and its left neighbour. -/
structure Spot.Made (source : List Char) (left : Option Token) (ts : List Token) (s : Spot) :
    Prop where
  spelled : Spelled source ts s
  behind : s.Behind left

namespace Token

variable {t : Token}

theorem isDivider_of_kind (h : t.kind ≠ .ident ∧ t.kind ≠ .punct) : t.isDivider = true := by
  unfold isDivider
  split
  · next hk => exact absurd hk h.1
  · next hk => exact absurd hk h.2
  · rfl

theorem isDivider_of_punct {value : String} (h : t.has .punct value = true)
    (hv : [",", ";", "=", "|", ":"].contains value = true) : t.isDivider = true := by
  obtain ⟨hk, rfl⟩ := kind_of_has h
  rw [isDivider, hk]
  exact hv

theorem isDivider_of_keyword {value : String} (h : t.has .keyword value = true) :
    t.isDivider = true :=
  isDivider_of_kind (by rw [(kind_of_has h).1]; decide)

theorem isDivider_of_isLiteral (h : t.isLiteral = true) : t.isDivider = true := by
  refine isDivider_of_kind ?_
  simp only [isLiteral, Bool.or_eq_true, beq_iff_eq] at h
  rcases h with h | h <;> rw [h] <;> decide

end Token

variable {source : List Char} {ts : List Token}

/-! ## Attributes -/

theorem DerivesParts.laid {context : EscapeContext} {parts : List Part}
    (h : DerivesParts source context ts parts) :
    ∀ left, Laid (Spot.Made source) left ts (parts.flatMap Part.spots) := by
  induction h with
  | nil => exact fun _ => .nil
  | literal _ _ ih => exact fun left => .skipOne (ih _)
  | expression he _ _ ih => exact fun left => .cons ⟨he, trivial⟩ (ih _)

theorem spotsAll_map_ofPart (parts : List Part) :
    AttributeValue.spotsAll (parts.map .ofPart) = parts.flatMap Part.spots := by
  rw [AttributeValue.spotsAll_eq_flatMap, List.flatMap_map]
  refine List.flatMap_congr fun part _ => ?_
  cases part <;> rfl

theorem DerivesValue.laid {v : AttributeValue} (h : DerivesValue source ts v) :
    ∀ left, Laid (Spot.Made source) left ts v.spots := by
  intro left
  cases h with
  | literal => exact .nil
  | expression h => exact .single ⟨h, trivial⟩
  | conditional h => exact .single ⟨h, trivial⟩
  | concat hk h =>
    rw [AttributeValue.spots, spotsAll_map_ofPart]
    exact .inside (Token.isGroup_of_kind (b := .round) hk) (h.laid none)
  | closure h => exact .single ⟨h, trivial⟩

theorem DerivesAttributes.laid {attributes : List Attribute}
    (h : DerivesAttributes source ts attributes) :
    ∀ left, Laid (Spot.Made source) left ts (attributes.flatMap Attribute.spots) := by
  induction h with
  | nil => exact fun _ => .nil
  | bare _ _ ih => exact fun left => .skip (ih _)
  | valued _ _ hv _ ih => exact fun left => .skip (.skipOne (.append (hv.laid _) (ih _)))

/-! ## Ends -/

/-- The last of the tokens is a divider. -/
def Closed (ts : List Token) : Prop := ∃ us t, ts = us ++ [t] ∧ t.isDivider = true

theorem Closed.single {t : Token} (h : t.isDivider = true) : Closed [t] := ⟨[], t, rfl, h⟩

theorem Closed.append {us : List Token} (h : Closed us) : Closed (ts ++ us) := by
  obtain ⟨vs, t, rfl, ht⟩ := h
  exact ⟨ts ++ vs, t, (List.append_assoc ..).symm, ht⟩

theorem Closed.cons {t : Token} (h : Closed ts) : Closed (t :: ts) :=
  (h.append : Closed ([t] ++ ts))

theorem Closed.ofKind {t : Token} (h : t.kind ≠ .ident ∧ t.kind ≠ .punct) : Closed [t] :=
  .single (Token.isDivider_of_kind h)

theorem CloseTag.closed {name : String} (h : CloseTag ts name) : Closed ts := by
  cases h with
  | mk _ _ hu => exact .cons (.append (.ofKind (by rw [hu]; decide)))

theorem Spelled.closed_expression {e : Expression} (h : Spelled source ts (.expression e)) :
    Closed ts := by
  cases h with
  | expression hk => exact .ofKind (by rw [hk]; decide)

theorem Spelled.closed_closure {c : Closure} (h : Spelled source ts (.closure c)) :
    Closed ts := by
  cases h with
  | statements _ _ _ _ _ he =>
    exact .cons (.cons (.cons (.append (.single (Token.isDivider_of_punct he (by decide))))))
  | braced _ _ _ hk => exact .cons (.cons (.cons (.ofKind (by rw [hk]; decide))))

theorem Spelled.closed_binding {p v : String} {pos : Nat}
    (h : Spelled source ts (.binding p v pos)) : Closed ts := by
  cases h with
  | binding _ _ _ _ hs =>
    exact .cons (.append (.cons (.append (.single (Token.isDivider_of_punct hs (by decide))))))

/-- Nodes, blocks and branches end in a divider. -/
def Phrase.Ends (ts : List Token) : Phrase → Prop
  | nodes _ | arms _ => True
  | _ => Closed ts

theorem Derives.ends {phrase : Phrase} (h : Derives source ts phrase) : phrase.Ends ts := by
  induction h with
  | text hl => exact .single (Token.isDivider_of_isLiteral hl)
  | stray h => exact h.closed
  | expression h => exact h.closed_expression
  | closure h => exact h.closed_closure
  | void _ _ _ hc => exact .cons (.append (.append (.ofKind (by rw [hc]; decide))))
  | element _ _ _ _ _ hc => exact .cons (.append (.append (.cons (.append hc.closed))))
  | comment _ _ hc => exact .cons (.append (.ofKind (by rw [hc]; decide)))
  | cdata _ _ _ hg => exact .cons (.cons (.ofKind (by rw [hg]; decide)))
  | doctype _ _ hg => exact .cons (.append (.ofKind (by rw [hg]; decide)))
  | instruction _ hc => exact .cons (.append (.ofKind (by rw [hc]; decide)))
  | binding h => exact h.closed_binding
  | choice _ _ ih => exact .cons ih
  | selection _ hg => exact .append (.ofKind (by rw [hg]; decide))
  | loop _ _ ih => exact .append ih
  | noNodes => trivial
  | nodes => trivial
  | block hg => exact .ofKind (by rw [hg]; decide)
  | blockBody _ ih => exact ih
  | nodeBody _ ih => exact ih
  | branch _ _ ih => exact .append ih
  | otherwise _ _ _ _ _ ih => exact .append (.append (.cons ih))
  | elseIf _ _ _ _ _ _ ih => exact .append (.append (.cons (.cons ih)))
  | noArms => trivial
  | arm => trivial

/-! ## Nodes -/

/-- The spots of a phrase, in rendering order. -/
def Phrase.spots : Phrase → List Spot
  | node n => n.spots
  | nodes ns | block ns | body ns => Node.spotsAll ns
  | branches bs otherwise => Branch.spotsAll bs ++ Node.spotsOption otherwise
  | arms as => Arm.spotsAll as

/-- What stands to the left of a phrase. -/
def Phrase.Behind (left : Option Token) : Phrase → Prop
  | branches _ _ => ∃ t, left = some t ∧ t.has .keyword "if" = true
  | arms _ => ∀ t ∈ left, t.isDivider = true
  | _ => True

/-- The spots of a phrase lie in its tokens. -/
theorem Derives.laid {phrase : Phrase} (h : Derives source ts phrase) :
    ∀ left, phrase.Behind left → Laid (Spot.Made source) left ts phrase.spots := by
  induction h with
  | text => exact fun _ _ => .nil
  | stray => exact fun _ _ => .nil
  | expression h => exact fun _ _ => .single ⟨h, trivial⟩
  | closure h => exact fun _ _ => .single ⟨h, trivial⟩
  | void _ _ ha => exact fun left _ => .skipOne (.skip (.append (ha.laid _) .nil))
  | element _ _ ha _ _ _ ih =>
    exact fun left _ => .skipOne (.skip (.append (ha.laid _) (.skipOne (.stay (ih _ trivial)))))
  | comment _ h => exact fun left _ => .skipOne (.stay (h.laid _))
  | cdata _ ho hi _ h =>
    intro left _
    obtain ⟨-, name, hname, -, hk⟩ := cdataBody?_eq_some_iff.mp hi
    refine .skipOne (Laid.stay (.inside (Token.isGroup_of_kind (b := .square) ho) ?_))
    rw [hname]
    exact .skipOne (.inside (Token.isGroup_of_kind (b := .square) hk) (h.laid none))
  | doctype => exact fun _ _ => .nil
  | instruction => exact fun _ _ => .nil
  | binding h => exact fun _ _ => .single ⟨h, trivial⟩
  | choice ht _ ih => exact fun left _ => .skipOne (ih _ ⟨_, rfl, ht⟩)
  | selection hs hg _ ih =>
    refine fun left _ => .cons ⟨hs, trivial⟩ (.inside ?_ (ih none ?_))
    · exact Token.isGroup_of_kind (b := .curly) hg
    · simp [Phrase.Behind]
  | loop hs _ ih => exact fun left _ => .cons ⟨hs, trivial⟩ (ih _ trivial)
  | noNodes => exact fun _ _ => .nil
  | nodes _ _ ih ihs => exact fun left _ => .append (ih _ trivial) (ihs _ trivial)
  | block hg _ ih =>
    exact fun left _ => .inside (Token.isGroup_of_kind (b := .curly) hg) (ih none trivial)
  | blockBody _ ih => exact ih
  | nodeBody _ ih =>
    intro left _
    rw [Phrase.spots, Node.spotsAll, Node.spotsAll, List.append_nil]
    exact ih left trivial
  | branch hs _ ih =>
    intro left hb
    simp only [Phrase.spots, Branch.spotsAll, Node.spotsOption, List.append_nil]
    exact .cons ⟨hs, hb⟩ (ih _ trivial)
  | otherwise hs _ ht _ ih iho =>
    intro left hb
    simp only [Phrase.spots, Branch.spotsAll, Node.spotsOption, List.append_nil, List.cons_append]
    exact .cons ⟨hs, hb⟩ ((ih _ trivial).append (.skipOne (iho _ trivial)))
  | elseIf hs _ _ hu _ ih iho =>
    intro left hb
    simp only [Phrase.spots, Branch.spotsAll, List.cons_append, List.append_assoc]
    exact .cons ⟨hs, hb⟩ ((ih _ trivial).append (.skipOne (.skipOne (iho _ ⟨_, rfl, hu⟩))))
  | noArms => exact fun _ _ => .nil
  | arm hs h hc _ ih iha =>
    intro left hb
    refine .cons ⟨hs, hb⟩ ((ih _ trivial).append (.skip (iha _ ?_)))
    -- the next arm follows a comma or the end of the body
    obtain ⟨us, t, rfl, ht⟩ := h.ends
    rcases hc with rfl | ⟨comma, rfl, hcomma⟩
    · simpa [Phrase.Behind] using ht
    · simpa [Phrase.Behind] using Token.isDivider_of_punct hcomma (by decide)

end MarkupTemplate
