import MarkupTemplate.Atom
import MarkupTemplate.Text.Quoted

/-!
# Tokens

Atoms are grouped into the tokens of the template grammar: touching punctuation is read as the
longest marker it spells, some words are keywords, and a bracket group is one token that keeps the
tokens inside it.

* `markers`: the markers made of touching punctuation, longest first.
* `classify`: the tokens of a list of atoms.
* `Token.describe`: how messages speak of a token.
-/

namespace MarkupTemplate

/-- The kinds of tokens; `endOfInput` is what a cursor shows past its last token. -/
inductive TokenKind where
  | ident
  | keyword
  | string
  | number
  | punct
  | commentOpen
  | commentClose
  | closeTag
  | declaration
  | instruction
  | instructionEnd
  | selfClose
  | arrow
  | lt
  | gt
  | paren
  | bracket
  | brace
  | endOfInput
deriving DecidableEq, Repr, Inhabited

/-- The name of a kind in messages. -/
def TokenKind.name : TokenKind → String
  | ident => "IDENT"
  | keyword => "KW"
  | string => "STRING"
  | number => "NUMBER"
  | punct => "PUNCT"
  | commentOpen => "COMMENT"
  | commentClose => "COMMENT_END"
  | closeTag => "CLOSE"
  | declaration => "DECL"
  | instruction => "PI"
  | instructionEnd => "PI_END"
  | selfClose => "SELF_CLOSE"
  | arrow => "ARROW"
  | lt => "LT"
  | gt => "GT"
  | paren => "PAREN"
  | bracket => "BRACKET"
  | brace => "BRACE"
  | endOfInput => "EOF"

/-- A token with its span; for a group, `inner` is the text between the brackets and `children` are
the tokens in it. -/
inductive Token where
  | mk (kind : TokenKind) (value : String) (pos stop : Nat) (inner : String)
    (children : List Token)
deriving Repr

namespace Token

/-- The kind of the token. -/
def kind : Token → TokenKind
  | mk kind _ _ _ _ _ => kind

/-- The decoded text of a literal, the opening bracket of a group, else the token's own text. -/
def value : Token → String
  | mk _ value _ _ _ _ => value

/-- Where the token starts. -/
def pos : Token → Nat
  | mk _ _ pos _ _ _ => pos

/-- Where the token ends: the offset just past it. -/
def stop : Token → Nat
  | mk _ _ _ stop _ _ => stop

/-- The text between the brackets of a group. -/
def inner : Token → String
  | mk _ _ _ _ inner _ => inner

/-- The tokens in a group. -/
def children : Token → List Token
  | mk _ _ _ _ _ children => children

/-- A token without inner structure. -/
def flat (kind : TokenKind) (value : String) (pos stop : Nat) : Token :=
  mk kind value pos stop "" []

instance : Inhabited Token := ⟨flat .endOfInput "" 0 0⟩

/-- True of a token of the given kind and value. -/
def has (t : Token) (kind : TokenKind) (value : String) : Bool :=
  t.kind == kind && t.value == value

/-- True of a bracket group. -/
def isGroup (t : Token) : Bool := t.kind == .paren || t.kind == .bracket || t.kind == .brace

/-- True of a string or a number. -/
def isLiteral (t : Token) : Bool := t.kind == .string || t.kind == .number

/-- How messages speak of a token. -/
def describe (t : Token) : String :=
  if t.kind = .endOfInput then "end of input"
  else if t.isGroup then Text.quote t.value ++ " group"
  else Text.quote t.value

end Token

/-- The words that open the control flow of a template. -/
def keywords : List String := ["if", "else", "match", "for", "in", "let"]

/-- The markers of the grammar, longest first. -/
def markers : List (List Char × TokenKind) :=
  [("<!--".toList, .commentOpen), ("-->".toList, .commentClose), ("</".toList, .closeTag),
   ("<!".toList, .declaration), ("<?".toList, .instruction), ("?>".toList, .instructionEnd),
   ("/>".toList, .selfClose), ("=>".toList, .arrow), ("<".toList, .lt), (">".toList, .gt)]

/-- Where the marker `spelling` ends, if touching punctuation atoms spell it; `from?` is the offset
at which the first of them has to start, if any. -/
def spelled? (from? : Option Nat) : List Char → List Atom → Option Nat
  | [], _ => from?
  | c :: spelling, .leaf .punct value pos stop :: atoms =>
    if value = c.toString ∧ (from? = none ∨ from? = some pos) then
      spelled? (some stop) spelling atoms
    else none
  | _ :: _, _ => none

/-- The longest marker spelled by the first atoms, with its kind and its end. -/
def marker? (atoms : List Atom) : Option (List Char × TokenKind × Nat) :=
  markers.findSome? fun m => (spelled? none m.1 atoms).map fun stop => (m.1, m.2, stop)

/-- The kind of a leaf that is no punctuation. -/
def leafTokenKind (kind : LeafKind) (value : String) : TokenKind :=
  match kind with
  | .ident => if keywords.contains value then .keyword else .ident
  | .string => .string
  | .number => .number
  | .punct => .punct

/-- The kind of a group. -/
def groupTokenKind : Bracket → TokenKind
  | .round => .paren
  | .square => .bracket
  | .curly => .brace

theorem sizeOf_drop_le {α : Type} [SizeOf α] (n : Nat) (l : List α) :
    sizeOf (l.drop n) ≤ sizeOf l := by
  induction n generalizing l with
  | zero => simp
  | succ n ih =>
    cases l with
    | nil => simp
    | cons a l => have := ih l; simp only [List.drop_succ_cons, List.cons.sizeOf_spec]; omega

/-- The tokens of a list of atoms. -/
def classify : List Atom → List Token
  | [] => []
  | .group b pos stop inner children :: atoms =>
    .mk (groupTokenKind b) b.opener.toString pos stop inner (classify children) :: classify atoms
  | .leaf kind value pos stop :: atoms =>
    if kind = .punct then
      match marker? (.leaf kind value pos stop :: atoms) with
      | some (spelling, markerKind, markerStop) =>
        .flat markerKind (String.ofList spelling) pos markerStop
          :: classify (atoms.drop (spelling.length - 1))
      | none => .flat .punct value pos stop :: classify atoms
    else .flat (leafTokenKind kind value) value pos stop :: classify atoms
termination_by atoms => sizeOf atoms
decreasing_by
  all_goals simp only [List.cons.sizeOf_spec, Atom.group.sizeOf_spec]
  · omega
  · omega
  · exact Nat.lt_of_le_of_lt (sizeOf_drop_le _ atoms) (by omega)
  · omega
  · omega

end MarkupTemplate
