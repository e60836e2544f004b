import MarkupTemplate.Host.Eval

/-!
# Statements

What statements do. The outcome of a statement tells the loop around it whether to go on.

* `Exec.exec`: runs statements until one leaves or continues the loop around them.
* `Exec.forEach`: runs a loop over the items of an iterator.
-/

namespace MarkupTemplate.Host.Exec

/-- Assigns to a target what an operator makes of its value and another. -/
def update (self : Interp) (env : Env) (target : Expr) (op : BinaryOp) (e : Expr) :
    Action Unit := do
  match target with
  | .member o name =>
    let object ← self.eval env o
    let old ← Item.member object name
    let new ← Operate.update self op old (← self.eval env e)
    Item.setMember object name new
  | .item o i =>
    let object ← self.eval env o
    let index ← self.eval env i
    let old ← Item.get self object index
    let new ← Operate.update self op old (← self.eval env e)
    Item.set self object index new
  | _ =>
    let old ← self.eval env target
    let new ← Operate.update self op old (← self.eval env e)
    self.assign env env.home target new

/-- Runs what follows a loop that was not left. -/
def afterLoop (self : Interp) (env : Env) (otherwise : List Stmt) : Flow → Action Flow
  | .leave => pure .onward
  | _ => self.exec env otherwise

/-- Runs one statement. -/
def run (self : Interp) (env : Env) (s : Stmt) : Action Flow := do
  match s with
  | .expr e =>
    let _ ← self.eval env e
    return .onward
  | .assign targets e =>
    let v ← self.eval env e
    targets.forM fun t => self.assign env env.home t v
    return .onward
  | .update target op e =>
    update self env target op e
    return .onward
  | .branch test body otherwise =>
    if ← Compare.truth (← self.eval env test) then self.exec env body
    else self.exec env otherwise
  | .forEach target iterable body otherwise =>
    let it ← Iterate.iter (← self.eval env iterable)
    afterLoop self env otherwise (← self.forEach env target it body)
  | .whileTest test body otherwise =>
    if ← Compare.truth (← self.eval env test) then
      match ← self.exec env body with
      | .leave => return .onward
      | _ => self.exec env [s]
    else self.exec env otherwise
  | .leave => return .leave
  | .proceed => return .proceed
  | .pass => return .onward

/-- Runs statements until one leaves or continues the loop around them. -/
def exec (self : Interp) (env : Env) : List Stmt → Action Flow
  | [] => pure .onward
  | s :: rest => do
    match ← run self env s with
    | .onward => exec self env rest
    | flow => return flow

/-- Runs statements for every item of an iterator; answers whether the loop was left. -/
def forEach (self : Interp) (env : Env) (target : Expr) (it : Nat) (body : List Stmt) :
    Action Flow := do
  match ← self.next it with
  | none => return .onward
  | some v =>
    self.assign env env.home target v
    match ← self.exec env body with
    | .leave => return .leave
    | _ => self.forEach env target it body

end MarkupTemplate.Host.Exec
