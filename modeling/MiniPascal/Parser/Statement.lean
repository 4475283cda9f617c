import MiniPascal.Parser.Expression

/-!
# Grammar of statements

    action = "if" condition "then" action ("else" action)?
           | "while" condition "do" action
           | "for" ident ":=" expression ("to" | "downto") expression "do" action
           | "begin" action* "end" separator
           | (assignment | call | "break") separator

The separator is `;`, and there is none before `end` and `else`.  The loop that a `break` leaves is
handed down to the statements inside of it.
-/

namespace MiniPascal

namespace Parse

/-- The semicolon behind a statement, which is left out before `end` and `else`. -/
def separator : Parse Unit := do
  match ← kind with
  | .endWord | .elseWord => return
  | _ =>
      let _ ← expect .semicolon

def assignTo (fuel : Nat) (target : Expr) : Parse Assignment := do
  let sign ← expect .assign
  return ⟨target, ← expression fuel, sign.position⟩

def identStatement (fuel : Nat) : Parse Statement := do
  let token ← advance
  match ← kind with
  | .assign => return .assign (← assignTo fuel (.ident token.text token.position))
  | .leftBracket =>
      let target ← element (nested fuel) token
      return .assign (← assignTo fuel target)
  | .leftParen =>
      return .call token.text (← arguments fuel (nested fuel) token.text) token.position
  | .semicolon | .endWord | .elseWord => return .call token.text [] token.position
  | _ => throw (.invalidStatement token.text token.position)

def breakStatement (loop : Option LoopId) : Parse Statement := do
  let token ← advance
  match loop with
  | some loop => return .leave loop token.position
  | none => throw (.breakOutsideLoop token.position)

def blockStatement (fuel : Nat) (inner : Parse Statement) : Parse Statement := do
  let _ ← expect .beginWord
  let statements ← many fuel do
    match ← kind with
    | .endWord => return none
    | .endOfInput => unexpected .endWord
    | _ => return some (← inner)
  let _ ← advance
  separator
  return .block statements

def ifStatement (fuel : Nat) (inner : Parse Statement) : Parse Statement := do
  let token ← advance
  let condition ← condition fuel
  let _ ← expect .thenWord
  let holds ← inner
  if (← kind) = .elseWord then
    let _ ← advance
    return .ifThenElse condition holds (← inner) token.position
  else return .ifThen condition holds token.position

def whileStatement (fuel : Nat) (inner : LoopId → Parse Statement) : Parse Statement := do
  let token ← advance
  let condition ← condition fuel
  let _ ← expect .doWord
  let id ← freshLoop
  return .whileLoop id condition (← inner id) token.position

def direction : Parse Direction := do
  match ← kind with
  | .toWord =>
      let _ ← advance
      return .upward
  | .downtoWord =>
      let _ ← advance
      return .downward
  | _ => unexpected .toWord

def forStatement (fuel : Nat) (inner : LoopId → Parse Statement) : Parse Statement := do
  let token ← advance
  let counter ← expect .ident
  let initial ← assignTo fuel (.ident counter.text counter.position)
  let direction ← direction
  let limit ← expression fuel
  let _ ← expect .doWord
  let id ← freshLoop
  return .forLoop id initial direction limit (← inner id) token.position

def statementWith (fuel : Nat) (inner : Option LoopId → Parse Statement) (loop : Option LoopId) :
    Parse (Option Statement) := do
  match ← kind with
  | .ifWord => return some (← ifStatement fuel (inner loop))
  | .whileWord => return some (← whileStatement fuel fun id => inner (some id))
  | .forWord => return some (← forStatement fuel fun id => inner (some id))
  | .beginWord => return some (← blockStatement fuel (inner loop))
  | .ident =>
      let statement ← identStatement fuel
      separator
      return some statement
  | .breakWord =>
      let statement ← breakStatement loop
      separator
      return some statement
  | _ => return none

def required (statement? : Parse (Option Statement)) : Parse Statement := do
  match ← statement? with
  | some statement => return statement
  | none => cannotExpand .statement

def statement? : Nat → Option LoopId → Parse (Option Statement)
  | 0, _ => throw .outOfFuel
  | fuel + 1, loop => statementWith (fuel + 1) (fun loop => required (statement? fuel loop)) loop

end Parse

end MiniPascal
