import MarkupTemplate.Host.Bound
import MarkupTemplate.Host.Parse

/-!
# Reading expressions

The grammar of expressions, by recursive descent: conditional expressions over `or`, `and`, `not`,
comparisons, the binary operators by their levels, signs, powers, and primaries with calls, members
and items.

* `Expr.readList`: an expression list, a tuple if it has a comma.
* `Expr.ofSource?`: the expression of a source, which is read inside parentheses.
* `Expr.isTarget`: the expressions that can be assigned to.
-/

namespace MarkupTemplate.Host

namespace Expr

open Parse

/-- The level and the meaning of a binary operator; a higher level binds tighter. -/
def binaryOp? : String → Option (Nat × BinaryOp)
  | "|" => some (1, .bitOr)
  | "^" => some (2, .bitXor)
  | "&" => some (3, .bitAnd)
  | "<<" => some (4, .shiftLeft)
  | ">>" => some (4, .shiftRight)
  | "+" => some (5, .add)
  | "-" => some (5, .sub)
  | "*" => some (6, .mul)
  | "/" => some (6, .div)
  | "//" => some (6, .floorDiv)
  | "%" => some (6, .mod)
  | "@" => some (6, .matMul)
  | _ => none

/-- The meaning of a comparison sign. -/
def compareOp? : String → Option CompareOp
  | "==" => some .eq
  | "!=" => some .ne
  | "<" => some .lt
  | "<=" => some .le
  | ">" => some .gt
  | ">=" => some .ge
  | _ => none

/-- Takes a comparison operator if one comes next. -/
def readCompareOp? : Parse (Option CompareOp) := do
  match ← get with
  | .op s :: rest =>
    match compareOp? s with
    | some op => set rest; return some op
    | none => return none
  | .keyword "in" :: rest => set rest; return some .member
  | .keyword "not" :: .keyword "in" :: rest => set rest; return some .notMember
  | .keyword "is" :: .keyword "not" :: rest => set rest; return some .notSame
  | .keyword "is" :: rest => set rest; return some .same
  | _ => return none

/-- True when an expression may follow here. -/
def startsExpr : Option Lexeme → Bool
  | some (.name _) => true
  | some (.keyword s) => ["None", "True", "False", "not", "lambda", "await"].contains s
  | some (.number _) => true
  | some (.string _ _ _) => true
  | some (.op s) => ["(", "[", "\x7b", "-", "+", "~", "*", "..."].contains s
  | _ => false

mutual

/-- True of an expression that can be assigned to. -/
def isTarget : Expr → Bool
  | .name id => isFree id
  | .member _ id => isFree id
  | .item _ _ => true
  | .tuple items => areTargets items
  | .list items => areTargets items
  | _ => false

/-- True of expressions that can be assigned to as the parts of one value, one of them starred. -/
def areTargets : List Expr → Bool
  | [] => true
  | .starred e :: rest =>
    isTarget e && areTargets rest && !rest.any fun | .starred _ => true | _ => false
  | e :: rest => isTarget e && areTargets rest

end

/-- Decodes the body of a string literal. The escape of a named character needs its name. -/
def decode? (raw : Bool) (s : List Char) : Option (List Char) :=
  if raw then some s
  else match s with
  | [] => some []
  | '\\' :: c :: rest =>
    if c == 'N' && rest.head? != some '\x7b' then none
    else match MarkupTemplate.Literal.readEscape c rest with
    | .ok (text, taken) => (decode? raw (rest.drop taken)).map (text ++ ·)
    | .error _ => none
  | c :: rest => (decode? raw rest).map (c :: ·)
termination_by s.length
decreasing_by
  · simp only [List.length_drop, List.length_cons]; omega
  · simp

/-- The literal text at the front of a formatted string, braces undoubled, and what follows it;
inside a format spec braces are not doubled. -/
def splitLiteral (inSpec raw : Bool) : List Char → List Char × List Char
  | [] => ([], [])
  | '\\' :: 'N' :: '\x7b' :: rest =>
    if raw then
      let (text, after) := splitLiteral inSpec raw ('N' :: '\x7b' :: rest)
      ('\\' :: text, after)
    else
      let name := rest.takeWhile (· != '\x7d')
      let (text, after) := splitLiteral inSpec raw ((rest.drop name.length).drop 1)
      let closer := (rest.drop name.length).take 1
      ('\\' :: 'N' :: '\x7b' :: name ++ closer ++ text, after)
  | '\x7b' :: '\x7b' :: rest =>
    if inSpec then ([], '\x7b' :: '\x7b' :: rest)
    else
      let (text, after) := splitLiteral inSpec raw rest
      ('\x7b' :: text, after)
  | '\x7d' :: '\x7d' :: rest =>
    if inSpec then ([], '\x7d' :: '\x7d' :: rest)
    else
      let (text, after) := splitLiteral inSpec raw rest
      ('\x7d' :: text, after)
  | '\\' :: c :: rest =>
    if !raw && c != '\x7b' && c != '\x7d' then
      let (text, after) := splitLiteral inSpec raw rest
      ('\\' :: c :: text, after)
    else
      let (text, after) := splitLiteral inSpec raw (c :: rest)
      ('\\' :: text, after)
  | c :: rest =>
    if c == '\x7b' || c == '\x7d' then ([], c :: rest)
    else
      let (text, after) := splitLiteral inSpec raw rest
      (c :: text, after)
termination_by s => s.length
decreasing_by all_goals (simp only [List.length_drop, List.length_cons]; omega)

/-- The length of the expression at the front of a replacement field; `skip` characters are passed
over, `closers` are the brackets still awaited and `quotes` the quotes of the string literal under
way. -/
def fieldLength? (skip : Nat) (closers quotes : List Char) : List Char → Option Nat
  | [] => none
  | c :: rest =>
    let go (skip : Nat) (closers quotes : List Char) : Option Nat :=
      (fieldLength? skip closers quotes rest).map (· + 1)
    let next := rest.head?
    if skip > 0 then go (skip - 1) closers quotes
    else if c == '\\' then none
    else if !quotes.isEmpty then
      if quotes.isPrefixOf (c :: rest) then go (quotes.length - 1) closers []
      else go 0 closers quotes
    else if c == '"' || c == '\x27' then
      if [c, c, c].isPrefixOf (c :: rest) then go 2 closers [c, c, c] else go 0 closers [c]
    else if c == '#' then none
    else match Bracket.openedBy? c with
    | some b => go 0 (b.closer :: closers) []
    | none =>
      if closers.isEmpty && (c == '<' || c == '>') then
        go (if next == some '=' then 1 else 0) closers []
      else if closers.isEmpty && (c == '!' || c == '=') then
        if next == some '=' then go 1 closers [] else some 0
      else if closers.isEmpty && (c == ':' || c == Bracket.curly.closer) then some 0
      else if (Bracket.closedBy? c).isSome then
        match closers with
        | d :: below => if c == d then go 0 below [] else none
        | [] => none
      else go 0 closers []

/-- What follows the expression in a replacement field: the text shown by `=`, the conversion and
what is left. -/
def fieldMarks? (source : List Char) (s : List Char) :
    Option (Option (List Char) × Option Char × List Char) := do
  let (shown, s) := match s with
    | '=' :: rest =>
      let blanks := rest.takeWhile Text.isBlank
      (some (source ++ '=' :: blanks), rest.drop blanks.length)
    | _ => (none, s)
  match s with
  | '!' :: c :: rest =>
    if c == 's' || c == 'r' || c == 'a' then
      match rest with
      | d :: _ => if d == ':' || d == '\x7d' then some (shown, some c, rest) else none
      | [] => none
    else none
  | _ => some (shown, none, s)

/-- Fails when a comprehension binds a name in passing where it may not. -/
def checkComprehension (elements : List Expr) (clauses : Clauses) : Parse Unit :=
  if isSoundComprehension elements clauses then pure () else failure

mutual

/-- Reads an expression, conditional ones included. -/
def read : Nat → Parse Expr
  | 0 => failure
  | n + 1 => do
    let yes ← readOr n
    if ← acceptWord "if" then
      let test ← readOr n
      expectWord "else"
      let no ← read n
      return .ifElse test yes no
    else return yes

/-- Reads an expression that may be bound to a name. -/
def readNamed : Nat → Parse Expr
  | 0 => failure
  | n + 1 => do
    match ← get with
    | .name id :: .op ":=" :: rest =>
      if isFree id then
        set rest
        return .assign id (← read n)
      else failure
    | _ =>
      let e ← read n
      if ← seesOp ":=" then failure else return e

/-- Reads an expression that may be bound to a name or starred. -/
def readStarNamed : Nat → Parse Expr
  | 0 => failure
  | n + 1 => do
    if ← accept "*" then return .starred (← readBinary n 1) else readNamed n

/-- Reads an expression that may be starred. -/
def readStarred : Nat → Parse Expr
  | 0 => failure
  | n + 1 => do
    if ← accept "*" then return .starred (← readBinary n 1) else read n

/-- Reads the items of a tuple without parentheses after the first, each after a comma; they are
starred only if `stars` says so. -/
def readListed : Nat → Bool → Parse (List Expr)
  | 0, _ => failure
  | n + 1, stars => do
    if ← accept "," then
      if startsExpr (← peek) then
        let item ← if stars then readStarred n else read n
        return item :: (← readListed n stars)
      else return []
    else return []

/-- Reads an expression list: one expression, or a tuple when a comma follows the first. A starred
expression needs the comma. -/
def readList : Nat → Bool → Parse Expr
  | 0, _ => failure
  | n + 1, stars => do
    let first ← if stars then readStarred n else read n
    if ← seesOp "," then return .tuple (first :: (← readListed n stars))
    else match first with
      | .starred _ => failure
      | _ => return first

/-- Reads operands of `or`. -/
def readOr : Nat → Parse Expr
  | 0 => failure
  | n + 1 => do
    let left ← readAnd n
    if ← acceptWord "or" then return .either left (← readOr n) else return left

/-- Reads operands of `and`. -/
def readAnd : Nat → Parse Expr
  | 0 => failure
  | n + 1 => do
    let left ← readNot n
    if ← acceptWord "and" then return .both left (← readAnd n) else return left

/-- Reads an operand of `and`. -/
def readNot : Nat → Parse Expr
  | 0 => failure
  | n + 1 => do
    if ← acceptWord "not" then return .unary .not (← readNot n)
    else
      let first ← readBinary n 1
      let rest ← readComparisons n
      return if rest.isEmpty then first else .compare first rest

/-- Reads the links of a chain of comparisons. -/
def readComparisons : Nat → Parse (List (CompareOp × Expr))
  | 0 => failure
  | n + 1 => do
    match ← readCompareOp? with
    | some op =>
      let operand ← readBinary n 1
      return (op, operand) :: (← readComparisons n)
    | none => return []

/-- Reads operands of binary operators of at least the given level. -/
def readBinary : Nat → Nat → Parse Expr
  | 0, _ => failure
  | n + 1, level => do
    let left ← readUnary n
    readOperators n level left

/-- Goes on with binary operators of at least the given level after a left operand. -/
def readOperators : Nat → Nat → Expr → Parse Expr
  | 0, _, _ => failure
  | n + 1, level, left => do
    match ← peek with
    | some (.op sign) =>
      match binaryOp? sign with
      | some (l, op) =>
        if level ≤ l then
          advance
          let right ← readBinary n (l + 1)
          readOperators n level (.binary op left right)
        else return left
      | none => return left
    | _ => return left

/-- Reads an operand with signs before it. -/
def readUnary : Nat → Parse Expr
  | 0 => failure
  | n + 1 => do
    if ← accept "-" then return .unary .minus (← readUnary n)
    else if ← accept "+" then return .unary .plus (← readUnary n)
    else if ← accept "~" then return .unary .invert (← readUnary n)
    else
      let base ← readAtom n
      let primary ← readTrailers n base
      if ← accept "**" then return .binary .pow primary (← readUnary n) else return primary

/-- Goes on with members, items and calls after a primary. -/
def readTrailers : Nat → Expr → Parse Expr
  | 0, _ => failure
  | n + 1, object => do
    match ← peek with
    | some (.op ".") =>
      advance
      let name ← freeName
      readTrailers n (.member object name)
    | some (.op "[") =>
      advance
      let index ← readIndex n
      expect "]"
      readTrailers n (.item object index)
    | some (.op "(") =>
      advance
      let (args, named) ← readArguments n
      readTrailers n (.call object args named)
    | _ => return object

/-- Reads what stands between the brackets of an item. -/
def readIndex : Nat → Parse Expr
  | 0 => failure
  | n + 1 => do
    let first ← readSlice n
    if ← seesOp "," then
      let rest ← readSlices n
      return .tuple (first :: rest)
    else match first with
      | .starred _ => return .tuple [first]
      | _ => return first

/-- Reads further slices, each after a comma. -/
def readSlices : Nat → Parse (List Expr)
  | 0 => failure
  | n + 1 => do
    if ← accept "," then
      if ← seesOp "]" then return []
      else
        let slice ← readSlice n
        return slice :: (← readSlices n)
    else return []

/-- Reads an index or a slice. -/
def readSlice : Nat → Parse Expr
  | 0 => failure
  | n + 1 => do
    let whole ← match ← get with
      | .op "*" :: _ => pure true
      | .name _ :: .op ":=" :: _ => pure true
      | _ => pure false
    let start ← if ← seesOp ":" then pure none else some <$> readStarNamed n
    if !whole && (← accept ":") then
      let stop ← readBound n
      let step ← if ← accept ":" then readBound n else pure none
      return .slice start stop step
    else match start with
      | some e => return e
      | none => failure

/-- Reads an optional bound of a slice. -/
def readBound : Nat → Parse (Option Expr)
  | 0 => failure
  | n + 1 => do if startsExpr (← peek) then return some (← read n) else return none

/-- Reads the arguments of a call and the closing parenthesis; a bare generator stands alone. -/
def readArguments : Nat → Parse (List Expr × List (Option String × Expr))
  | 0 => failure
  | n + 1 => do
    if ← accept ")" then return ([], [])
    else
      let (args, named) ← readArgument n
      if ← seesWord "for" then
        match args with
        | [.starred _] => failure
        | [e] =>
          let clauses ← readClauses n
          expect ")"
          checkComprehension [e] clauses
          return ([.generator e clauses], [])
        | _ => failure
      else readMoreArguments n args named

/-- Reads further arguments, each after a comma, and the closing parenthesis. -/
def readMoreArguments : Nat → List Expr → List (Option String × Expr) →
    Parse (List Expr × List (Option String × Expr))
  | 0, _, _ => failure
  | n + 1, args, named => do
    if ← accept ")" then return (args, named)
    else
      expect ","
      if ← accept ")" then return (args, named)
      else
        let (moreArgs, moreNamed) ← readArgument n
        let isStar : Expr → Bool | .starred _ => true | _ => false
        let clash := moreNamed.any fun b => b.1.isSome && named.any fun a => a.1 == b.1
        let misplaced := moreArgs.any fun e =>
          if isStar e then named.any (·.1.isNone) else !named.isEmpty
        if clash || misplaced then failure
        else readMoreArguments n (args ++ moreArgs) (named ++ moreNamed)

/-- Reads one argument of a call. -/
def readArgument : Nat → Parse (List Expr × List (Option String × Expr))
  | 0 => failure
  | n + 1 => do
    if ← accept "*" then return ([.starred (← read n)], [])
    else if ← accept "**" then return ([], [(none, ← read n)])
    else match ← get with
      | .name id :: .op "=" :: rest =>
        if isFree id then
          set rest
          return ([], [(some id, ← read n)])
        else failure
      | _ => return ([← readNamed n], [])

/-- Reads the clauses of a comprehension. -/
def readClauses : Nat → Parse Clauses
  | 0 => failure
  | n + 1 => do
    if ← acceptWord "for" then
      let target ← readTarget n
      expectWord "in"
      let iterable ← readOr n
      let conditions ← readConditions n
      return (target, iterable, conditions) :: (← readClauses n)
    else return []

/-- Reads the conditions of a clause. -/
def readConditions : Nat → Parse (List Expr)
  | 0 => failure
  | n + 1 => do
    if ← acceptWord "if" then
      let condition ← readOr n
      return condition :: (← readConditions n)
    else return []

/-- Reads the target of a loop. -/
def readTarget : Nat → Parse Expr
  | 0 => failure
  | n + 1 => do
    let first ← readTargetItem n
    let target ← if ← seesOp "," then (fun rest => .tuple (first :: rest)) <$> readTargets n
      else pure first
    if isTarget target then return target else failure

/-- Reads further parts of a target, each after a comma. -/
def readTargets : Nat → Parse (List Expr)
  | 0 => failure
  | n + 1 => do
    if ← accept "," then
      if startsExpr (← peek) then
        let item ← readTargetItem n
        return item :: (← readTargets n)
      else return []
    else return []

/-- Reads one part of a target. -/
def readTargetItem : Nat → Parse Expr
  | 0 => failure
  | n + 1 => do
    if ← accept "*" then return .starred (← readBinary n 1) else readBinary n 1

/-- Reads the items of a display after the first, each after a comma. -/
def readItems : Nat → Parse (List Expr)
  | 0 => failure
  | n + 1 => do
    if ← accept "," then
      if startsExpr (← peek) then
        let item ← readStarNamed n
        return item :: (← readItems n)
      else return []
    else return []

/-- Reads an entry of a dictionary. -/
def readEntry : Nat → Parse (Option Expr × Expr)
  | 0 => failure
  | n + 1 => do
    if ← accept "**" then return (none, ← readBinary n 1)
    else
      let key ← read n
      expect ":"
      return (some key, ← read n)

/-- Reads the entries of a dictionary after the first, each after a comma. -/
def readEntries : Nat → Parse (List (Option Expr × Expr))
  | 0 => failure
  | n + 1 => do
    if ← accept "," then
      if ← seesOp "\x7d" then return []
      else
        let entry ← readEntry n
        return entry :: (← readEntries n)
    else return []

/-- Reads an atom: a literal, a name or a display. -/
def readAtom : Nat → Parse Expr
  | 0 => failure
  | n + 1 => do
    match ← peek with
    | some (.number v) => advance; return .literal v
    | some (.string _ _ _) => readStrings n
    | some (.keyword "None") => advance; return .literal .none
    | some (.keyword "True") => advance; return .literal (.bool true)
    | some (.keyword "False") => advance; return .literal (.bool false)
    | some (.op "...") => advance; return .literal .ellipsis
    | some (.name id) => advance; return .name id
    | some (.op "(") =>
      advance
      if ← accept ")" then return .tuple []
      else
        let first ← readStarNamed n
        if ← seesWord "for" then
          let clauses ← readClauses n
          expect ")"
          match first with
          | .starred _ => failure
          | _ =>
            checkComprehension [first] clauses
            return .generator first clauses
        else if ← seesOp "," then
          let items ← readItems n
          expect ")"
          return .tuple (first :: items)
        else
          expect ")"
          match first with
          | .starred _ => failure
          | _ => return first
    | some (.op "[") =>
      advance
      if ← accept "]" then return .list []
      else
        let first ← readStarNamed n
        if ← seesWord "for" then
          let clauses ← readClauses n
          expect "]"
          match first with
          | .starred _ => failure
          | _ =>
            checkComprehension [first] clauses
            return .listOf first clauses
        else
          let items ← readItems n
          expect "]"
          return .list (first :: items)
    | some (.op "\x7b") =>
      advance
      if ← accept "\x7d" then return .dict []
      else
        let first ← readEntry n
        if ← seesWord "for" then
          let clauses ← readClauses n
          expect "\x7d"
          match first with
          | (some key, value) =>
            checkComprehension [key, value] clauses
            return .dictOf key value clauses
          | (none, _) => failure
        else
          let entries ← readEntries n
          expect "\x7d"
          return .dict (first :: entries)
    | _ => failure

/-- Reads adjacent string literals as one. -/
def readStrings : Nat → Parse Expr
  | 0 => failure
  | n + 1 => do
    let parts ← readPieces n
    if parts.any fun | .field _ _ _ => true | _ => false then return .joined parts
    else
      return .literal (.str (String.join (parts.map fun
        | .literal (.str s) => s
        | _ => "")))

/-- Reads the parts of adjacent string literals. -/
def readPieces : Nat → Parse (List Expr)
  | 0 => failure
  | n + 1 => do
    match ← peek with
    | some (.string formatted raw body) =>
      advance
      let parts ←
        if formatted then do
          let (parts, rest) ← readFields n 0 raw body
          if rest.isEmpty then pure parts else failure
        else match decode? raw body with
          | some text => pure [.literal (.str (String.ofList text))]
          | none => failure
      return parts ++ (← readPieces n)
    | _ => return []

/-- Reads the parts of a formatted string, and what is left of it; a format spec ends at the brace
that closes its field. `depth` is the number of format specs around. -/
def readFields : Nat → Nat → Bool → List Char → Parse (List Expr × List Char)
  | 0, _, _, _ => failure
  | n + 1, depth, raw, body => do
    let inSpec := depth != 0
    let (plain, rest) := splitLiteral inSpec raw body
    let text ← match decode? raw plain with
      | some text => pure (if text.isEmpty then [] else [Expr.literal (.str (String.ofList text))])
      | none => failure
    match rest with
    | '\x7b' :: inside =>
      let (pieces, after) ← readField n depth raw inside
      let (parts, left) ← readFields n depth raw after
      return (text ++ pieces ++ parts, left)
    | [] => if inSpec then failure else return (text, [])
    | _ => if inSpec then return (text, rest) else failure

/-- Reads a replacement field after its opening brace. The format spec of a field may hold fields,
and their specs may hold none. -/
def readField : Nat → Nat → Bool → List Char → Parse (List Expr × List Char)
  | 0, _, _, _ => failure
  | n + 1, depth, raw, body => do
    let source ← match if depth < 2 then fieldLength? 0 [] [] body else none with
      | some length => pure (body.take length)
      | none => failure
    let value ← match Lexeme.ofText? ('(' :: source ++ [')']) with
      | some lexemes =>
        if Text.isAllBlank source then failure
        else match (readList n true).run lexemes with
          | some (e, [.lineEnd]) => pure e
          | _ => failure
      | none => failure
    match fieldMarks? source (body.drop source.length) with
    | none => failure
    | some (shown, conversion, rest) =>
      let shownText := match shown with
        | some text => [Expr.literal (.str (String.ofList text))]
        | none => []
      match rest with
      | '\x7d' :: after =>
        let conversion := if shown.isSome && conversion.isNone then some 'r' else conversion
        return (shownText ++ [.field value conversion (.joined [])], after)
      | ':' :: spec =>
        let (parts, left) ← readFields n (depth + 1) raw spec
        match left with
        | '\x7d' :: after => return (shownText ++ [.field value conversion (.joined parts)], after)
        | _ => failure
      | _ => failure

end

/-- Enough steps for the expressions that a number of lexemes can hold. -/
def steps (lexemes : List Lexeme) : Nat :=
  lexemes.foldl (fun n x => n + match x with
    | .string _ _ body => 40 * (body.length + 2)
    | _ => 40) 80

/-- The expression of a source, which is read inside parentheses so that it may span lines. -/
def ofSource? (source : List Char) : Option Expr := do
  let lexemes ← Lexeme.ofText? ("(\n".toList ++ source ++ "\n)".toList)
  whole (readList (steps lexemes) false) lexemes

end Expr

end MarkupTemplate.Host
