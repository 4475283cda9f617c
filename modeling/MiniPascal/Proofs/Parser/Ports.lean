import MiniPascal.Parser.Declaration
import MiniPascal.Proofs.Ensures

/-!
# Parsers with open ports

The rules of the parser reach past the current token in two ways: they read the raw text of a literal,
and they hand a token back.  Below are the rules on the way to those two with both left open.  Put in
what the parser does there, and they are its rules; put in something else, and what comes of it shows
where the parser does these things and in which states.
-/

namespace MiniPascal

/-- What is done where literal text is read and where a token is handed back. -/
structure Ports where
  rawText : Parse String
  backtrack : Token → Parse Unit

namespace Ports

open Parse (chain operations operation? many kind advance expect name current position unexpected
  cannotExpand)

def standard : Ports := ⟨Parse.draw Lexer.rawText, Parse.backtrack⟩

variable (ports : Ports)

/-! ### Expressions -/

def literal : Parse Expr := do
  if (← kind) ≠ .apostrophe then unexpected .apostrophe
  let position ← position
  let text ← ports.rawText
  let _ ← advance
  let _ ← expect .apostrophe
  return .literal text position

def arguments (fuel : Nat) (nested : Grammar → Parse Expr) (callee : String) :
    Parse (List Expr) := do
  let _ ← expect .leftParen
  let arguments ←
    if Builtin.ofName? callee = some .write then pure [← ports.literal]
    else Parse.argumentList fuel (Parse.argument nested callee)
  let _ ← expect .rightParen
  return arguments

def factor (fuel : Nat) (nested : Grammar → Parse Expr) (grammar : Grammar) : Parse Expr := do
  match ← kind with
  | .ident =>
      let token ← advance
      match ← kind with
      | .leftBracket => Parse.element nested token
      | .leftParen =>
          return .call token.text (← ports.arguments fuel nested token.text) token.position
      | _ => return .ident token.text token.position
  | .number =>
      let token ← advance
      return .number token.value token.position
  | .leftParen =>
      let _ ← advance
      let inner ← nested grammar
      let _ ← expect .rightParen
      return inner
  | _ => cannotExpand .factor

def term (fuel : Nat) (nested : Grammar → Parse Expr) (grammar : Grammar) : Parse Expr :=
  operations fuel BinaryOp.ofMultiplicative? (ports.factor fuel nested grammar)
    (ports.factor fuel nested grammar)

def signedTerm (fuel : Nat) (nested : Grammar → Parse Expr) (grammar : Grammar) : Parse Expr := do
  if (← kind) = .minus then
    let token ← advance
    return .negate (← ports.term fuel nested grammar) token.position
  else ports.term fuel nested grammar

def sum (fuel : Nat) (nested : Grammar → Parse Expr) (grammar : Grammar) : Parse Expr :=
  operations fuel BinaryOp.ofAdditive? (ports.signedTerm fuel nested grammar)
    (ports.term fuel nested grammar)

def comparison (fuel : Nat) (nested : Grammar → Parse Expr) : Parse Expr := do
  let left ← ports.sum fuel nested .condition
  match ← operation? BinaryOp.ofRelation? (ports.sum fuel nested .condition) with
  | none => return left
  | some operation => return chain left [operation]

def negation (fuel : Nat) (nested : Grammar → Parse Expr) : Nat → Parse Expr
  | 0 => throw .outOfFuel
  | depth + 1 => do
      if (← kind) = .notWord then
        let token ← advance
        return .not (← negation fuel nested depth) token.position
      else ports.comparison fuel nested

def conjunction (fuel : Nat) (nested : Grammar → Parse Expr) : Parse Expr :=
  operations fuel BinaryOp.ofConjunction? (ports.negation fuel nested fuel)
    (ports.negation fuel nested fuel)

def disjunction (fuel : Nat) (nested : Grammar → Parse Expr) : Parse Expr :=
  operations fuel BinaryOp.ofDisjunction? (ports.conjunction fuel nested)
    (ports.conjunction fuel nested)

def nested : Nat → Grammar → Parse Expr
  | 0, _ => throw .outOfFuel
  | fuel + 1, .arithmetic => ports.sum (fuel + 1) (nested fuel) .arithmetic
  | fuel + 1, .condition => ports.disjunction (fuel + 1) (nested fuel)

/-! ### Statements -/

def assignTo (fuel : Nat) (target : Expr) : Parse Assignment := do
  let sign ← expect .assign
  return ⟨target, ← ports.nested fuel .arithmetic, sign.position⟩

def identStatement (fuel : Nat) : Parse Statement := do
  let token ← advance
  match ← kind with
  | .assign => return .assign (← ports.assignTo fuel (.ident token.text token.position))
  | .leftBracket =>
      let target ← Parse.element (ports.nested fuel) token
      return .assign (← ports.assignTo fuel target)
  | .leftParen =>
      return .call token.text (← ports.arguments fuel (ports.nested fuel) token.text) token.position
  | .semicolon | .endWord | .elseWord => return .call token.text [] token.position
  | _ => throw (.invalidStatement token.text token.position)

def ifStatement (fuel : Nat) (inner : Parse Statement) : Parse Statement := do
  let token ← advance
  let condition ← ports.nested fuel .condition
  let _ ← expect .thenWord
  let holds ← inner
  if (← kind) = .elseWord then
    let _ ← advance
    return .ifThenElse condition holds (← inner) token.position
  else return .ifThen condition holds token.position

def whileStatement (fuel : Nat) (inner : LoopId → Parse Statement) : Parse Statement := do
  let token ← advance
  let condition ← ports.nested fuel .condition
  let _ ← expect .doWord
  let id ← Parse.freshLoop
  return .whileLoop id condition (← inner id) token.position

def forStatement (fuel : Nat) (inner : LoopId → Parse Statement) : Parse Statement := do
  let token ← advance
  let counter ← expect .ident
  let initial ← ports.assignTo fuel (.ident counter.text counter.position)
  let direction ← Parse.direction
  let limit ← ports.nested fuel .arithmetic
  let _ ← expect .doWord
  let id ← Parse.freshLoop
  return .forLoop id initial direction limit (← inner id) token.position

def statementWith (fuel : Nat) (inner : Option LoopId → Parse Statement) (loop : Option LoopId) :
    Parse (Option Statement) := do
  match ← kind with
  | .ifWord => return some (← ports.ifStatement fuel (inner loop))
  | .whileWord => return some (← ports.whileStatement fuel fun id => inner (some id))
  | .forWord => return some (← ports.forStatement fuel fun id => inner (some id))
  | .beginWord => return some (← Parse.blockStatement fuel (inner loop))
  | .ident =>
      let statement ← ports.identStatement fuel
      Parse.separator
      return some statement
  | .breakWord =>
      let statement ← Parse.breakStatement loop
      Parse.separator
      return some statement
  | _ => return none

def statement? : Nat → Option LoopId → Parse (Option Statement)
  | 0, _ => throw .outOfFuel
  | fuel + 1, loop =>
      ports.statementWith (fuel + 1) (fun loop => Parse.required (statement? fuel loop)) loop

/-! ### Declarations and programs -/

def dataType (fuel : Nat) : Parse DataType := do
  let token ← current
  if token.kind = .ident ∧ token.text = "array" then
    let _ ← advance
    let _ ← expect .leftBracket
    let low ← ports.nested fuel .arithmetic
    let _ ← expect .dot
    let _ ← expect .dot
    let high ← ports.nested fuel .arithmetic
    let _ ← expect .rightBracket
    let _ ← expect .ofWord
    let _ ← Parse.ordinaryType
    return .array low high
  else Parse.ordinaryType

def nextVarGroup? (fuel : Nat) : Parse (Option VarGroup) := do
  let _ ← expect .semicolon
  if (← kind) ≠ .ident then return none
  let token ← advance
  match ← kind with
  | .comma | .colon => return some (← Parse.varGroup fuel (ports.dataType fuel) token)
  | _ =>
      ports.backtrack token
      return none

def varBlock (fuel : Nat) : Parse (List Statement) := do
  let _ ← expect .varWord
  let first ← expect .ident
  let group ← Parse.varGroup fuel (ports.dataType fuel) first
  let groups ← many fuel (ports.nextVarGroup? fuel)
  return (group :: groups).map .vars

def constantItem (fuel : Nat) (token : Token) : Parse Statement := do
  let _ ← expect .equal
  let value ← ports.nested fuel .arithmetic
  let _ ← expect .semicolon
  return .constant token.text value token.position

def nextConstant? (fuel : Nat) : Parse (Option Statement) := do
  if (← kind) ≠ .ident then return none
  let token ← advance
  if (← kind) = .equal then return some (← ports.constantItem fuel token)
  else
    ports.backtrack token
    return none

def constBlock (fuel : Nat) : Parse (List Statement) := do
  let _ ← expect .constWord
  let token ← expect .ident
  let first ← ports.constantItem fuel token
  return first :: (← many fuel (ports.nextConstant? fuel))

def storageBlock? (fuel : Nat) : Parse (Option (List Statement)) := do
  match ← kind with
  | .varWord => return some (← ports.varBlock fuel)
  | .constWord => return some (← ports.constBlock fuel)
  | _ => return none

def actions (fuel : Nat) : Parse (Position × List Statement) := do
  let token ← expect .beginWord
  let statements ← many fuel (ports.statement? fuel none)
  let _ ← expect .endWord
  return (token.position, statements)

def callable (fuel : Nat) : Parse Statement := do
  let heading ← Parse.heading fuel
  let _ ← expect .semicolon
  if (← kind) = .forwardWord then
    let _ ← advance
    let _ ← expect .semicolon
    return .forward heading
  let declarations ← many fuel (ports.storageBlock? fuel)
  let (_, statements) ← ports.actions fuel
  let _ ← expect .semicolon
  return .callable heading (declarations.flatten ++ statements)

def topLevel? (fuel : Nat) : Parse (Option (List Statement)) := do
  match ← kind with
  | .functionWord | .procedureWord => return some [← ports.callable fuel]
  | _ => ports.storageBlock? fuel

def programWith (fuel : Nat) : Parse Program := do
  let header ← Parse.programHeader
  let declarations ← many fuel (ports.topLevel? fuel)
  let (position, statements) ← ports.actions fuel
  let _ ← expect .dot
  let _ ← expect .endOfInput
  return ⟨header ++ declarations.flatten ++ [Parse.mainCallable position statements]⟩

def program : Parse Program := do
  ports.programWith (← get).fuel

end Ports

end MiniPascal
