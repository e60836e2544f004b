import MarkupTemplate.Node.Attribute

/-!
# Reading nodes

The grammar of templates: text literals, expressions, closures, markup, and control flow whose
blocks are bracket groups read on their own. Elements nest in the tokens of one group, blocks nest
in groups; both leave fewer tokens to read, which is why the reading ends.

* `readNodes`: the nodes up to the end, or up to the closing tag of the element they belong to.
* `readNode`: one node.
* `Document.ofText?`: the document that a text holds.
-/

namespace MarkupTemplate

open Cursor

namespace Node

/-! ## Heads -/

/-- Takes the source of a pattern up to the token that stops it. -/
def readPattern (stop : Token → Bool) (what : String) : Reader String := do
  let start := (← get).head
  let tokens ← takeUntil stop what
  if tokens.isEmpty then failAt .missingPattern start else return (← get).raw tokens

/-- Takes the source of the expression between a keyword and its block. -/
def readHead (what : String) : Reader String := do
  let start := (← get).head
  let tokens ← takeUntil (·.kind == .brace) ("'\x7b' to open the " ++ what ++ " block")
  if tokens.isEmpty then failAt (.missingHead what) start else return (← get).raw tokens

/-- What stands before the block of a branch. -/
structure BranchHead where
  condition : String
  pattern : Option String
  pos : Nat

/-- Takes what stands between `if` and the block: a condition, or a pattern and a value. -/
def readBranchHead : Reader BranchHead := do
  let start := (← get).head
  if start.has .keyword "let" then do
    let _ ← next
    let pattern ← readPattern (·.has .punct "=") "'='"
    let _ ← next
    let condition ← readHead "if"
    return ⟨condition, some pattern, start.pos⟩
  else do
    let condition ← readHead "if"
    return ⟨condition, none, start.pos⟩

/-- Takes `match` and its scrutinee. -/
def readMatchHead : Reader (String × Nat) := do
  let start ← expect .keyword "match"
  let scrutinee ← readHead "match"
  return (scrutinee, start.pos)

/-- Takes `for`, its pattern, `in` and its iterable. -/
def readForHead : Reader (String × String × Nat) := do
  let start ← expect .keyword "for"
  let pattern ← readPattern (·.has .keyword "in") "'in'"
  let _ ← next
  let iterable ← readHead "for"
  return (pattern, iterable, start.pos)

/-- Takes the pattern of an arm and the arrow after it. -/
def readArmHead : Reader String := do
  let pattern ← readPattern (·.kind == .arrow) "'=>'"
  let _ ← next
  return pattern

/-- Takes a comma if one comes next. -/
def skipComma : Reader Unit := do
  if (← get).sees .punct "," then do
    let _ ← next
    return ()
  else return ()

/-! ## Markup without children -/

/-- Takes a comment. -/
def readComment : Reader Node := do
  let start ← expectKind .commentOpen
  let tokens ← takeAllUntil (·.kind == .commentClose)
  let parts ← lift (readParts .comment (.expectedPayloadPart EscapeContext.comment.name) tokens)
  if (← get).isAt .commentClose then do
    let _ ← next
    return .comment parts
  else failAt .unterminatedComment start

/-- The body of a character data section, from the bracket group after `<!`. -/
def cdataBody? (t : Token) : Option Token :=
  match t.kind, t.children with
  | .bracket, [name, body] =>
    if name.has .ident "CDATA" && body.kind == .bracket then some body else none
  | _, _ => none

/-- Takes a character data section whose body is known. -/
def readCdata (body : Token) : Reader Node := do
  let _ ← expectKind .declaration
  let _ ← expectKind .bracket
  let _ ← expectKind .gt
  let parts ← lift (readParts .cdata (.expectedPayloadPart EscapeContext.cdata.name) body.children)
  return .cdata parts

/-- Takes a declaration. -/
def readDoctype : Reader Node := do
  let start ← expectKind .declaration
  let payload ← takeUntil (·.kind == .gt) "'>' to close <!"
  let _ ← next
  if payload.isEmpty then failAt .emptyDeclaration start
  else return .doctype ((← get).joined payload)

/-- Takes a character data section or another declaration. -/
def readDeclaration : Reader Node := do
  match cdataBody? ((← get).peek 1) with
  | some body => readCdata body
  | none => readDoctype

/-- Takes a processing instruction. -/
def readInstruction : Reader Node := do
  let _ ← expectKind .instruction
  let payload ← takeUntil (·.kind == .instructionEnd) "'?>' to close <?"
  let _ ← next
  return .instruction ((← get).joined payload)

/-- Takes a binding. -/
def readBinding : Reader Node := do
  let start ← expect .keyword "let"
  let pattern ← readPattern (·.has .punct "=") "'='"
  let _ ← next
  let value ← takeUntil (·.has .punct ";") "';' after let"
  let _ ← next
  if value.isEmpty then failAt .missingValue start
  else return .binding pattern ((← get).raw value) start.pos

/-- Takes a literal. -/
def readText (kind : TokenKind) : Reader Node := do
  let t ← expectKind kind
  return .text t.value

/-- Takes an expression in braces. -/
def readExpression : Reader Node := do
  let t ← expectKind .brace
  return .expression (← lift (expressionOf .text t))

/-- The fault of a token that opens no node. -/
def unexpected (t : Token) : FaultCause :=
  if t.has .keyword "else" then .orphanElse
  else if t.kind = .ident then .bareWord t.value
  else .unexpectedToken t.value

/-! ## Tags -/

/-- A start tag that has been read. -/
structure TagHead where
  name : String
  attributes : List Attribute
  selfClosing : Bool
  /-- The token that opened the tag. -/
  opening : Token

/-- Takes attributes up to the end of the start tag, and the end; answers whether the tag closes
itself. -/
def readAttributes (name : String) (opening : Token) (c : Cursor) :
    EStateM.Result Fault Cursor (List Attribute × Bool) :=
  if c.isAt .gt then .ok ([], false) (c.skip 1)
  else if c.isAt .selfClose then .ok ([], true) (c.skip 1)
  else if c.isAt .endOfInput then .error ⟨.unterminatedTag name, opening.pos⟩ c
  else match _h : readAttribute c with
    | .error f d => .error f d
    | .ok a d =>
      match readAttributes name opening d with
      | .error f e => .error f e
      | .ok (attributes, selfClosing) e => .ok (a :: attributes, selfClosing) e
termination_by c.ahead.length
decreasing_by exact advances_readAttribute.2 c a d ‹_›

/-- Takes a start tag. -/
def readTagHead : Reader TagHead := do
  let opening ← expectKind .lt
  let name ← readName
  let (attributes, selfClosing) ← readAttributes name opening
  return ⟨name, attributes, selfClosing, opening⟩

theorem forward_readAttributes (name : String) (opening : Token) :
    Forward (readAttributes name opening) := by
  intro c
  fun_induction readAttributes name opening c with
  | case1 => exact ⟨1, rfl⟩
  | case2 => exact ⟨1, rfl⟩
  | case3 => exact Reaches.refl _
  | case4 c _ _ _ f d h => have := advances_readAttribute.1 c; rwa [h] at this
  | case5 c _ _ _ a d h f e hr ih | case6 c _ _ _ a d h as s e hr ih =>
    have := advances_readAttribute.1 c
    rw [h] at this; rw [hr] at ih
    exact this.trans ih

theorem advances_readTagHead : Advances readTagHead :=
  (advances_expectKind (by decide)).bind_left fun _ => advances_readName.1.bind fun _ =>
    (forward_readAttributes _ _).bind fun _ => .pure _

/-! ## Progress of the heads -/

theorem forward_readPattern (stop : Token → Bool) (what : String) :
    Forward (readPattern stop what) :=
  Forward.get.bind fun _ => (forward_takeUntil _ _).bind fun _ =>
    .ite (.failAt _ _) (Forward.get.bind fun _ => .pure _)

theorem forward_readHead (what : String) : Forward (readHead what) :=
  Forward.get.bind fun _ => (forward_takeUntil _ _).bind fun _ =>
    .ite (.failAt _ _) (Forward.get.bind fun _ => .pure _)

theorem forward_readBranchHead : Forward readBranchHead :=
  Forward.get.bind fun _ =>
    .ite (Forward.next.bind fun _ => (forward_readPattern _ _).bind fun _ =>
        Forward.next.bind fun _ => (forward_readHead _).bind fun _ => .pure _)
      ((forward_readHead _).bind fun _ => .pure _)

theorem advances_readMatchHead : Advances readMatchHead :=
  (advances_expect "match" (by decide)).bind_left fun _ =>
    (forward_readHead _).bind fun _ => .pure _

theorem advances_readForHead : Advances readForHead :=
  (advances_expect "for" (by decide)).bind_left fun _ => (forward_readPattern _ _).bind fun _ =>
    Forward.next.bind fun _ => (forward_readHead _).bind fun _ => .pure _

theorem forward_readArmHead : Forward readArmHead :=
  (forward_readPattern _ _).bind fun _ => Forward.next.bind fun _ => .pure _

theorem forward_skipComma : Forward skipComma :=
  Forward.get.bind fun _ => .ite (Forward.next.bind fun _ => .pure _) (.pure _)

theorem advances_readComment : Advances readComment :=
  (advances_expectKind (by decide)).bind_left fun _ => (Forward.takeAllUntil _).bind fun _ =>
    (Forward.lift _).bind fun _ => Forward.get.bind fun _ =>
      .ite (Forward.next.bind fun _ => .pure _) (.failAt _ _)

theorem advances_readCdata (body : Token) : Advances (readCdata body) :=
  (advances_expectKind (by decide)).bind_left fun _ => (forward_expectKind _).bind fun _ =>
    (forward_expectKind _).bind fun _ => (Forward.lift _).bind fun _ => .pure _

theorem advances_readDoctype : Advances readDoctype :=
  (advances_expectKind (by decide)).bind_left fun _ => (forward_takeUntil _ _).bind fun _ =>
    Forward.next.bind fun _ => .ite (.failAt _ _) (Forward.get.bind fun _ => .pure _)

theorem advances_readDeclaration : Advances readDeclaration :=
  Advances.bind_right Forward.get fun c => by
    cases cdataBody? (c.peek 1) with
    | some body => exact advances_readCdata body
    | none => exact advances_readDoctype

theorem advances_readInstruction : Advances readInstruction :=
  (advances_expectKind (by decide)).bind_left fun _ => (forward_takeUntil _ _).bind fun _ =>
    Forward.next.bind fun _ => Forward.get.bind fun _ => .pure _

theorem advances_readBinding : Advances readBinding :=
  (advances_expect "let" (by decide)).bind_left fun _ => (forward_readPattern _ _).bind fun _ =>
    Forward.next.bind fun _ => (forward_takeUntil _ _).bind fun _ => Forward.next.bind fun _ =>
      .ite (.failAt _ _) (Forward.get.bind fun _ => .pure _)

theorem advances_readText {kind : TokenKind} (h : kind ≠ .endOfInput) : Advances (readText kind) :=
  (advances_expectKind h).bind_left fun _ => .pure _

theorem advances_readExpression : Advances readExpression :=
  (advances_expectKind (by decide)).bind_left fun _ => (Forward.lift _).bind fun _ => .pure _

/-! ## Nodes and blocks -/

/-- A cursor with fewer tokens ahead than `c`. -/
abbrev Past (c : Cursor) := { d : Cursor // sizeOf d.ahead < sizeOf c.ahead }

/-- A cursor with no more tokens ahead than `c`. -/
abbrev From (c : Cursor) := { d : Cursor // sizeOf d.ahead ≤ sizeOf c.ahead }

/-- A reading from a cursor that keeps what it knows about where it stopped. -/
abbrev Reading (α : Type) := Except (Fault × Cursor) α

/-- A reading by a reader that takes a token. -/
def take {α : Type} (r : Reader α) (h : Advances r) (c : Cursor) : Reading (α × Past c) :=
  match e : r c with
  | .ok a d => .ok (a, ⟨d, by
      have hr := h.1 c
      rw [e] at hr
      exact hr.sizeOf_lt (h.2 c a d e)⟩)
  | .error f d => .error (f, d)

/-- A reading by a reader that may take no token. -/
def pass {α : Type} (r : Reader α) (h : Forward r) (c : Cursor) : Reading (α × From c) :=
  match e : r c with
  | .ok a d => .ok (a, ⟨d, by
      have hr := h c
      rw [e] at hr
      exact hr.sizeOf_le⟩)
  | .error f d => .error (f, d)

/-- Takes the brace group of a block. -/
def takeBlock (c : Cursor) :
    Reading ({ t : Token // sizeOf t.children < sizeOf c.ahead } × Past c) :=
  match h : c.ahead with
  | [] => .error (⟨.expectedKind TokenKind.brace.name c.ending, c.ending.pos⟩, c)
  | t :: rest =>
    have hs : sizeOf t.children < sizeOf c.ahead := by
      rw [h]
      cases t
      simp only [Token.children, List.cons.sizeOf_spec, Token.mk.sizeOf_spec]
      omega
    have hr : sizeOf (c.skip 1).ahead < sizeOf c.ahead := by
      simp only [skip, h, List.drop_succ_cons, List.drop_zero, List.cons.sizeOf_spec]
      omega
    if t.kind = .brace then .ok (⟨t, h ▸ hs⟩, ⟨c.skip 1, h ▸ hr⟩)
    else .error (⟨.expectedKind TokenKind.brace.name t, t.pos⟩, c.skip 1)

mutual

/-- Reads nodes up to the end or, for the body of the element opened by a token, up to a closing
tag. -/
def nodesFrom (opening : Option Token) (c : Cursor) : Reading (List Node × From c) :=
  if c.isAt .endOfInput then
    match opening with
    | some t => .error (⟨.unterminatedElement, t.pos⟩, c)
    | none => .ok ([], ⟨c, Nat.le_refl _⟩)
  else if c.isAt .closeTag then
    match opening with
    | some _ => .ok ([], ⟨c, Nat.le_refl _⟩)
    | none => do
      let (name, ⟨d, hd⟩) ← take readCloseTag advances_readCloseTag c
      let (nodes, ⟨e, he⟩) ← nodesFrom opening d
      return (.text ("</" ++ name ++ ">") :: nodes, ⟨e, by omega⟩)
  else do
    let (node, ⟨d, hd⟩) ← nodeFrom c
    let (nodes, ⟨e, he⟩) ← nodesFrom opening d
    return (node :: nodes, ⟨e, by omega⟩)
termination_by (sizeOf c.ahead, 3)

/-- Reads one node. -/
def nodeFrom (c : Cursor) : Reading (Node × Past c) :=
  let t := c.head
  match t.kind with
  | .commentOpen => take readComment advances_readComment c
  | .declaration => take readDeclaration advances_readDeclaration c
  | .instruction => take readInstruction advances_readInstruction c
  | .lt => do
    let (tag, ⟨d, hd⟩) ← take readTagHead advances_readTagHead c
    if tag.selfClosing then return (.element tag.name tag.attributes true [] none, ⟨d, hd⟩)
    else
      let (children, ⟨e, he⟩) ← nodesFrom (some tag.opening) d
      let (close, ⟨f, hf⟩) ← pass readCloseTag advances_readCloseTag.1 e
      return (.element tag.name tag.attributes false children (some close), ⟨f, by omega⟩)
  | .string => take (readText .string) (advances_readText (by decide)) c
  | .number => take (readText .number) (advances_readText (by decide)) c
  | .brace => take readExpression advances_readExpression c
  | _ =>
    if t.has .punct "|" then do
      let (value, d) ← take readClosure advances_readClosure c
      return (.closure value, d)
    else if t.has .keyword "if" then do
      let (_, ⟨d, hd⟩) ← take (expect .keyword "if") (advances_expect "if" (by decide)) c
      let ((branches, otherwise), ⟨e, he⟩) ← branchesFrom d
      return (.choice branches otherwise, ⟨e, by omega⟩)
    else if t.has .keyword "match" then do
      let ((scrutinee, pos), ⟨d, hd⟩) ← take readMatchHead advances_readMatchHead c
      let (⟨group, hg⟩, ⟨e, he⟩) ← takeBlock d
      match armsFrom (d.inside group) with
      | .ok arms => return (.selection scrutinee arms pos, ⟨e, by omega⟩)
      | .error f => throw (f, e)
    else if t.has .keyword "for" then do
      let ((pattern, iterable, pos), ⟨d, hd⟩) ← take readForHead advances_readForHead c
      let (body, ⟨e, he⟩) ← blockFrom d
      return (.loop pattern iterable body pos, ⟨e, by omega⟩)
    else if t.has .keyword "let" then take readBinding advances_readBinding c
    else .error (⟨unexpected t, t.pos⟩, c)
termination_by (sizeOf c.ahead, 2)
decreasing_by
  · exact Prod.Lex.left _ _ hd
  · exact Prod.Lex.left _ _ hd
  · exact Prod.Lex.left _ _ (Nat.lt_trans hg hd)
  · exact Prod.Lex.left _ _ hd

/-- Reads the nodes in a brace group. -/
def blockFrom (c : Cursor) : Reading (List Node × Past c) := do
  let (⟨group, _hg⟩, d) ← takeBlock c
  match nodesFrom none (c.inside group) with
  | .ok (nodes, _) => return (nodes, d)
  | .error (f, _) => throw (f, d.1)
termination_by (sizeOf c.ahead, 0)
decreasing_by exact Prod.Lex.left _ _ ‹_›

/-- Reads the branches of a choice after `if`, and its last resort. -/
def branchesFrom (c : Cursor) : Reading ((List Branch × Option (List Node)) × Past c) := do
  let (head, ⟨d, hd⟩) ← pass readBranchHead forward_readBranchHead c
  let (body, ⟨e, he⟩) ← blockFrom d
  let branch := Branch.mk head.condition body head.pattern head.pos
  if e.sees .keyword "else" then
    let (_, ⟨f, hf⟩) ← take (expect .keyword "else") (advances_expect "else" (by decide)) e
    if f.sees .keyword "if" then
      let (_, ⟨g, hg⟩) ← take (expect .keyword "if") (advances_expect "if" (by decide)) f
      let ((branches, otherwise), ⟨k, hk⟩) ← branchesFrom g
      return ((branch :: branches, otherwise), ⟨k, by omega⟩)
    else
      let (otherwise, ⟨g, hg⟩) ← blockFrom f
      return (([branch], some otherwise), ⟨g, by omega⟩)
  else return (([branch], none), ⟨e, by omega⟩)
termination_by (sizeOf c.ahead, 1)
decreasing_by
  · exact Prod.Lex.right' _ hd (by decide)
  · exact Prod.Lex.left _ _ (by omega)
  · exact Prod.Lex.left _ _ (by omega)

/-- Reads what an arm yields: a block or one node. -/
def armBodyFrom (c : Cursor) : Reading (List Node × Past c) :=
  if c.isAt .brace then blockFrom c
  else do
    let (node, d) ← nodeFrom c
    return ([node], d)
termination_by (sizeOf c.ahead, 3)

/-- Reads the arms of a selection. -/
def armsFrom (c : Cursor) : Except Fault (List Arm) :=
  if c.isAt .endOfInput then .ok []
  else do
    let (pattern, ⟨d, _hd⟩) ← (pass readArmHead forward_readArmHead c).mapError (·.1)
    let (body, ⟨e, _he⟩) ← (armBodyFrom d).mapError (·.1)
    let (_, ⟨f, _hf⟩) ← (pass skipComma forward_skipComma e).mapError (·.1)
    let arms ← armsFrom f
    return .mk pattern body :: arms
termination_by (sizeOf c.ahead, 4)
decreasing_by
  · exact Prod.Lex.right' _ ‹_› (by decide)
  · exact Prod.Lex.left _ _ (by omega)

end

end Node

/-- Takes nodes up to the end or, for the body of the element opened by a token, up to a closing
tag. -/
def readNodes (opening : Option Token) : Reader (List Node) := fun c =>
  match Node.nodesFrom opening c with
  | .ok (nodes, d) => .ok nodes d.1
  | .error (f, d) => .error f d

/-- Takes one node. -/
def readNode : Reader Node := fun c =>
  match Node.nodeFrom c with
  | .ok (node, d) => .ok node d.1
  | .error (f, d) => .error f d

namespace Document

/-- The document in the part of a text from an offset on. -/
def ofTextFrom? (text : List Char) (offset : Nat) : Except Failure Document :=
  match scan text offset with
  | .error f => .error ((Fault.ofScan f).toFailure text)
  | .ok atoms =>
    match readNodes none (Cursor.ofTokens text (classify atoms)) with
    | .ok nodes _ => .ok ⟨nodes, text⟩
    | .error f _ => .error (f.toFailure text)

/-- The document that a text holds. -/
def ofText? (text : List Char) : Except Failure Document := ofTextFrom? text 0

end Document

end MarkupTemplate
