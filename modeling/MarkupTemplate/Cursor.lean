import MarkupTemplate.Atom.Scan
import MarkupTemplate.Fault

/-!
# Cursors

A cursor reads the tokens of the document, or of one bracket group, from left to right. A reader is
a step that moves a cursor and answers a value or a fault; either way the cursor stays where the
reading stopped.

* `Cursor.next`, `Cursor.expect`, `Cursor.takeUntil`: the primitive readers.
* `Cursor.readName`, `Cursor.readCloseTag`, `Cursor.expression`: names, closing tags and the split
  of a brace group into expression and format spec.
* `Forward`: a reader only moves to the right, whether it succeeds or fails.
-/

namespace MarkupTemplate

/-- A point between the tokens of a document or a group. -/
structure Cursor where
  /-- The text of the whole document. -/
  source : List Char
  /-- The offset at which the document or group ends. -/
  stop : Nat
  /-- The number of tokens already taken. -/
  index : Nat
  /-- The tokens still to come. -/
  ahead : List Token

/-- A step that moves a cursor and answers a value or a fault. -/
abbrev Reader (α : Type) := EStateM Fault Cursor α

namespace Cursor

/-- The cursor before the first token of a document. -/
def ofTokens (source : List Char) (tokens : List Token) : Cursor :=
  ⟨source, source.length, 0, tokens⟩

/-- The cursor before the first token of a group. -/
def inside (c : Cursor) (group : Token) : Cursor :=
  ⟨c.source, group.stop - 1, 0, group.children⟩

/-- The cursor `n` tokens further on, or at the end. -/
def skip (c : Cursor) (n : Nat) : Cursor :=
  { c with index := c.index + min n c.ahead.length, ahead := c.ahead.drop n }

/-- The token that stands for the end. -/
def ending (c : Cursor) : Token := .flat .endOfInput "" c.stop c.stop

/-- The token `offset` places ahead. -/
def peek (c : Cursor) (offset : Nat) : Token := c.ahead[offset]?.getD c.ending

/-- The next token. -/
def head (c : Cursor) : Token := c.peek 0

/-- True when the next token has the kind. -/
def isAt (c : Cursor) (kind : TokenKind) : Bool := c.head.kind == kind

/-- True when the next token has the kind and the value. -/
def sees (c : Cursor) (kind : TokenKind) (value : String) : Bool := c.head.has kind value

/-- The source text of some tokens, from the first to the last, without the blanks at its ends. -/
def raw (c : Cursor) (tokens : List Token) : String :=
  match tokens.head?, tokens.getLast? with
  | some first, some last => String.ofList (Text.trim (Text.slice c.source first.pos last.stop))
  | _, _ => ""

/-- The source texts of some tokens, after a token that ended at `last`: one space stands for any
gap. -/
def joinedAfter (source : List Char) (last : Nat) : List Token → List Char
  | [] => []
  | t :: tokens =>
    (if last < t.pos then [' '] else []) ++ Text.slice source t.pos t.stop
      ++ joinedAfter source t.stop tokens

/-- The source texts of some tokens with every gap between them replaced by one space. -/
def joined (c : Cursor) : List Token → String
  | [] => ""
  | t :: tokens =>
    String.ofList (Text.slice c.source t.pos t.stop ++ joinedAfter c.source t.stop tokens)

/-! ## Primitive readers -/

/-- Fails at a token. -/
def failAt {α : Type} (cause : FaultCause) (t : Token) : Reader α := throw ⟨cause, t.pos⟩

/-- Takes the next token; at the end it stays and answers the end. -/
def next : Reader Token := fun c => .ok c.head (c.skip 1)

/-- Takes a token of the given kind. -/
def expectKind (kind : TokenKind) : Reader Token := do
  let t ← next
  if t.kind = kind then return t else failAt (.expectedKind kind.name t) t

/-- Takes a token of the given kind and value. -/
def expect (kind : TokenKind) (value : String) : Reader Token := do
  let t ← next
  if t.has kind value then return t else failAt (.expectedValue value t) t

/-- The number of tokens before the first that stops the reading. -/
def reach (stop : Token → Bool) (c : Cursor) : Nat := (c.ahead.takeWhile fun t => !stop t).length

/-- Takes the tokens before the first that stops the reading, or all of them. -/
def takeAllUntil (stop : Token → Bool) : Reader (List Token) := fun c =>
  .ok (c.ahead.take (c.reach stop)) (c.skip (c.reach stop))

/-- Takes the tokens before the first that stops the reading, which has to come. -/
def takeUntil (stop : Token → Bool) (what : String) : Reader (List Token) := do
  let tokens ← takeAllUntil stop
  let c ← get
  if c.isAt .endOfInput then failAt (.expectedBefore what) c.head else return tokens

/-! ## Names and closing tags -/

/-- True of a token that may open a name. -/
def isNameStart (t : Token) : Bool := t.kind == .ident || t.kind == .keyword

/-- True of a token that may go on with a name after a separator. -/
def isSegment (t : Token) : Bool := isNameStart t || t.kind == .number

/-- True of a punctuation token that may join two segments of a name. -/
def isSeparator (t : Token) : Bool :=
  t.has .punct ":" || t.has .punct "-" || t.has .punct "."

/-- The number of tokens that go on with a name which ended at `last`: pairs of a separator and a
segment, all touching; a colon only as the first separator. -/
def nameLength (colon : Bool) (last : Nat) : List Token → Nat
  | sep :: seg :: tokens =>
    if isSeparator sep && sep.pos == last && (colon || sep.value != ":")
        && isSegment seg && seg.pos == sep.stop then
      nameLength false seg.stop tokens + 2
    else 0
  | _ => 0

/-- Takes a name: a string literal, or touching segments joined by `-`, `.` or one leading `:`. -/
def readName : Reader String := fun c =>
  if c.head.kind = .string then .ok c.head.value (c.skip 1)
  else if isNameStart c.head then
    let n := nameLength true c.head.stop (c.ahead.drop 1) + 1
    .ok (String.join ((c.ahead.take n).map Token.value)) (c.skip n)
  else .error ⟨.expectedName c.head, c.head.pos⟩ c

/-- Takes a closing tag and answers its name. -/
def readCloseTag : Reader String := do
  let _ ← expectKind .closeTag
  let name ← readName
  let t ← next
  if t.kind = .selfClose then failAt .selfClosingCloseTag t
  else if t.kind = .gt then return name
  else failAt (.expectedCloseTagEnd t) t

/-! ## Groups and expressions -/

/-- The cursor into a token that has to be a group. -/
def group (t : Token) : Reader Cursor := do
  if t.isGroup then return (← get).inside t else failAt .expectedGroup t

/-- The two sides of the first top-level `;` of a brace group, blanks cut off; without one there
is no format spec. -/
def splitSpec (t : Token) : List Char × Option (List Char) :=
  let text := t.inner.toList
  let base := t.pos + 1
  match t.children.find? (·.has .punct ";") with
  | some semi =>
    (Text.trim (text.take (semi.pos - base)), some (Text.trim (text.drop (semi.stop - base))))
  | none => (Text.trim text, none)

/-- Splits a brace group into the source of its expression and its format spec. -/
def splitExpression (t : Token) : Except Fault (String × Option String) :=
  if t.value ≠ Bracket.curly.opener.toString then .error ⟨.expectedBraces, t.pos⟩
  else
    let (source, spec) := splitSpec t
    if source = [] then .error ⟨.emptyExpression, t.pos⟩
    else .ok (String.ofList source, spec.map String.ofList)

/-- A result that does not depend on the cursor, as a reader. -/
def lift {α : Type} (r : Except Fault α) : Reader α := fun c =>
  match r with
  | .ok a => .ok a c
  | .error f => .error f c

/-- Splits a brace group, which the cursor has already taken. -/
def expression (t : Token) : Reader (String × Option String) := lift (splitExpression t)

end Cursor

/-- The tokens of a template text. -/
def tokenize (source : List Char) : Except ScanFault Cursor :=
  (scan source 0).map fun atoms => Cursor.ofTokens source (classify atoms)

end MarkupTemplate
