import MarkupTemplate.Host.Expr.Read

/-!
# Reading statements

The grammar of the statements of a closure: expression statements and assignments, of which several
may stand on a line, and the compound statements with indented blocks.

* `Stmt.ofSource?`: the statements of a source.
* `Stmt.areSound`: loops are left and continued only from inside, and do not nest too deep.
-/

namespace MarkupTemplate.Host

namespace Stmt

open Parse

/-- The operator of an assignment that updates its target. -/
def updateOp? : String → Option BinaryOp
  | "+=" => some .add
  | "-=" => some .sub
  | "*=" => some .mul
  | "/=" => some .div
  | "//=" => some .floorDiv
  | "%=" => some .mod
  | "**=" => some .pow
  | "<<=" => some .shiftLeft
  | ">>=" => some .shiftRight
  | "&=" => some .bitAnd
  | "|=" => some .bitOr
  | "^=" => some .bitXor
  | "@=" => some .matMul
  | _ => none

/-- True of an expression that an update may assign to. -/
def isUpdateTarget : Expr → Bool
  | .name id => Expr.isFree id
  | .member _ _ => true
  | .item _ _ => true
  | _ => false

/-- Reads the values of a chain of assignments after the first `=`; the last one is assigned. -/
def readChain (n : Nat) : Nat → Parse (List Expr)
  | 0 => failure
  | m + 1 => do
    let value ← Expr.readList n true
    if ← accept "=" then return value :: (← readChain n m) else return [value]

/-- Reads a statement that fits on a line. -/
def readSimple (n : Nat) : Parse Stmt := do
  if ← acceptWord "pass" then return .pass
  else if ← acceptWord "break" then return .leave
  else if ← acceptWord "continue" then return .proceed
  else
    let first ← Expr.readList n true
    match ← peek with
    | some (.op "=") =>
      advance
      let chain ← readChain n n
      match chain.reverse with
      | value :: targets =>
        let targets := first :: targets.reverse
        if targets.all Expr.isTarget then return .assign targets value
        else failure
      | [] => failure
    | some (.op sign) =>
      match updateOp? sign with
      | some op =>
        advance
        let value ← Expr.readList n true
        if isUpdateTarget first then return .update first op value
        else failure
      | none => return .expr first
    | _ => return .expr first

/-- Reads the statements of a line and its end. -/
def readLine (n : Nat) : Nat → Parse (List Stmt)
  | 0 => failure
  | m + 1 => do
    let first ← readSimple n
    if ← accept ";" then
      match ← peek with
      | some .lineEnd => advance; return [first]
      | _ => return first :: (← readLine n m)
    else match ← peek with
      | some .lineEnd => advance; return [first]
      | _ => failure

mutual

/-- Reads a block: the rest of the line, or indented lines. -/
def readBlock (n : Nat) : Nat → Parse (List Stmt)
  | 0 => failure
  | m + 1 => do
    expect ":"
    match ← get with
    | .lineEnd :: .indent :: rest =>
      set rest
      let body ← readStatements n m
      match ← peek with
      | some .dedent => advance; return body
      | _ => failure
    | .lineEnd :: _ => failure
    | _ => readLine n m

/-- Reads statements up to the end of a block. -/
def readStatements (n : Nat) : Nat → Parse (List Stmt)
  | 0 => failure
  | m + 1 => do
    match ← peek with
    | none => return []
    | some .dedent => return []
    | some .lineEnd => advance; readStatements n m
    | _ =>
      let statements ← readStatement n m
      return statements ++ (← readStatements n m)

/-- Reads a compound statement or the statements of a line. -/
def readStatement (n : Nat) : Nat → Parse (List Stmt)
  | 0 => failure
  | m + 1 => do
    if ← acceptWord "if" then return [← readBranch n m]
    else if ← acceptWord "for" then
      let target ← Expr.readTarget n
      expectWord "in"
      let iterable ← Expr.readList n true
      let body ← readBlock n m
      let otherwise ← if ← acceptWord "else" then readBlock n m else pure []
      return [.forEach target iterable body otherwise]
    else if ← acceptWord "while" then
      let test ← Expr.readNamed n
      let body ← readBlock n m
      let otherwise ← if ← acceptWord "else" then readBlock n m else pure []
      return [.whileTest test body otherwise]
    else readLine n m

/-- Reads a conditional statement after its first word. -/
def readBranch (n : Nat) : Nat → Parse Stmt
  | 0 => failure
  | m + 1 => do
    let test ← Expr.readNamed n
    let body ← readBlock n m
    if ← acceptWord "elif" then return .branch test body [← readBranch n m]
    else
      let otherwise ← if ← acceptWord "else" then readBlock n m else pure []
      return .branch test body otherwise

end

/-- How deep loops may be nested. -/
def deepestLoop : Nat := 20

mutual

/-- True of a statement, inside a number of loops, that leaves and continues loops only from inside
and nests them no deeper than they may be. -/
def isSound (loops : Nat) : Stmt → Bool
  | .leave => loops != 0
  | .proceed => loops != 0
  | .branch _ body otherwise => areSound loops body && areSound loops otherwise
  | .forEach _ _ body otherwise =>
    decide (loops < deepestLoop) && areSound (loops + 1) body && areSound loops otherwise
  | .whileTest _ body otherwise =>
    decide (loops < deepestLoop) && areSound (loops + 1) body && areSound loops otherwise
  | _ => true

/-- True when the rule holds of every statement. -/
def areSound (loops : Nat) : List Stmt → Bool
  | [] => true
  | s :: rest => isSound loops s && areSound loops rest

end

/-- The statements of a source. -/
def ofSource? (source : List Char) : Option (List Stmt) := do
  let lexemes ← Lexeme.ofText? source
  let n := Expr.steps lexemes
  let statements ← whole (readStatements n n) lexemes
  if areSound 0 statements then some statements else none

end Stmt

end MarkupTemplate.Host
