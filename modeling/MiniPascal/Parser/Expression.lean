import MiniPascal.Builtin
import MiniPascal.Parser.Basic

/-!
# Grammar of expressions

    expression  = "-"? term (("+" | "-") term)*
    term        = factor (("*" | "div" | "mod") factor)*
    factor      = ident | ident "[" expression "]" | ident arguments | number
                | "(" expression ")"
    condition   = conjunction ("or" conjunction)*
    conjunction = negation ("and" negation)*
    negation    = "not" negation | expression (relation expression)?

Within a condition the parentheses of a factor hold a condition again.  Operators of one level
associate to the left, and a relation cannot be chained.
-/

namespace MiniPascal

/-- What stands between the parentheses of a factor. -/
inductive Grammar where
  | arithmetic
  | condition
  deriving Repr, DecidableEq, Inhabited

def BinaryOp.ofAdditive? : TokenKind → Option BinaryOp
  | .plus => some .add
  | .minus => some .sub
  | _ => none

def BinaryOp.ofMultiplicative? : TokenKind → Option BinaryOp
  | .times => some .mul
  | .divWord => some .div
  | .modWord => some .mod
  | _ => none

def BinaryOp.ofRelation? : TokenKind → Option BinaryOp
  | .equal => some .equal
  | .notEqual => some .notEqual
  | .less => some .less
  | .lessEqual => some .lessEqual
  | .greater => some .greater
  | .greaterEqual => some .greaterEqual
  | _ => none

def BinaryOp.ofDisjunction? : TokenKind → Option BinaryOp
  | .orWord => some .or
  | _ => none

def BinaryOp.ofConjunction? : TokenKind → Option BinaryOp
  | .andWord => some .and
  | _ => none

namespace Parse

def operation? (operator? : TokenKind → Option BinaryOp) (operand : Parse Expr) :
    Parse (Option (BinaryOp × Position × Expr)) := do
  match operator? (← kind) with
  | none => return none
  | some op =>
      let token ← advance
      let right ← operand
      return some (op, token.position, right)

def chain (left : Expr) (operations : List (BinaryOp × Position × Expr)) : Expr :=
  operations.foldl (fun left (op, position, right) => .binary op left right position) left

def operations (fuel : Nat) (operator? : TokenKind → Option BinaryOp) (first operand : Parse Expr) :
    Parse Expr := do
  let left ← first
  return chain left (← many fuel (operation? operator? operand))

def element (nested : Grammar → Parse Expr) (array : Token) : Parse Expr := do
  let _ ← advance
  let index ← nested .arithmetic
  let _ ← expect .rightBracket
  return .element array.text index array.position

def assignable (nested : Grammar → Parse Expr) : Parse Expr := do
  let token ← expect .ident
  if (← kind) = .leftBracket then element nested token
  else return .ident token.text token.position

/-- Literal text.  The opening quote stays current until the raw text behind it has been read. -/
def literal : Parse Expr := do
  if (← kind) ≠ .apostrophe then unexpected .apostrophe
  let position ← position
  let text ← draw Lexer.rawText
  let _ ← advance
  let _ ← expect .apostrophe
  return .literal text position

def argument (nested : Grammar → Parse Expr) (callee : String) : Parse Expr :=
  match Builtin.ofName? callee with
  | some .readln | some .dec => assignable nested
  | _ => nested .arithmetic

def argumentList (fuel : Nat) (item : Parse Expr) : Parse (List Expr) := do
  if (← kind) = .rightParen then return []
  let first ← item
  let others ← many fuel do
    if (← kind) = .rightParen then return none
    let _ ← expect .comma
    return some (← item)
  return first :: others

def arguments (fuel : Nat) (nested : Grammar → Parse Expr) (callee : String) :
    Parse (List Expr) := do
  let _ ← expect .leftParen
  let arguments ←
    if Builtin.ofName? callee = some .write then pure [← literal]
    else argumentList fuel (argument nested callee)
  let _ ← expect .rightParen
  return arguments

def factor (fuel : Nat) (nested : Grammar → Parse Expr) (grammar : Grammar) : Parse Expr := do
  match ← kind with
  | .ident =>
      let token ← advance
      match ← kind with
      | .leftBracket => element nested token
      | .leftParen =>
          return .call token.text (← arguments fuel nested token.text) token.position
      | _ => return .ident token.text token.position
  | .number =>
      let token ← advance
      return .number token.value token.position
  | .leftParen =>
      let _ ← advance
      let inner ← nested grammar
      let _ ← expect .rightParen
      return inner
  | _ => cannotExpand .factor

def term (fuel : Nat) (nested : Grammar → Parse Expr) (grammar : Grammar) : Parse Expr :=
  operations fuel BinaryOp.ofMultiplicative? (factor fuel nested grammar)
    (factor fuel nested grammar)

def signedTerm (fuel : Nat) (nested : Grammar → Parse Expr) (grammar : Grammar) : Parse Expr := do
  if (← kind) = .minus then
    let token ← advance
    return .negate (← term fuel nested grammar) token.position
  else term fuel nested grammar

def sum (fuel : Nat) (nested : Grammar → Parse Expr) (grammar : Grammar) : Parse Expr :=
  operations fuel BinaryOp.ofAdditive? (signedTerm fuel nested grammar) (term fuel nested grammar)

def comparison (fuel : Nat) (nested : Grammar → Parse Expr) : Parse Expr := do
  let left ← sum fuel nested .condition
  match ← operation? BinaryOp.ofRelation? (sum fuel nested .condition) with
  | none => return left
  | some operation => return chain left [operation]

def negation (fuel : Nat) (nested : Grammar → Parse Expr) : Nat → Parse Expr
  | 0 => throw .outOfFuel
  | depth + 1 => do
      if (← kind) = .notWord then
        let token ← advance
        return .not (← negation fuel nested depth) token.position
      else comparison fuel nested

def conjunction (fuel : Nat) (nested : Grammar → Parse Expr) : Parse Expr :=
  operations fuel BinaryOp.ofConjunction? (negation fuel nested fuel) (negation fuel nested fuel)

def disjunction (fuel : Nat) (nested : Grammar → Parse Expr) : Parse Expr :=
  operations fuel BinaryOp.ofDisjunction? (conjunction fuel nested) (conjunction fuel nested)

def nested : Nat → Grammar → Parse Expr
  | 0, _ => throw .outOfFuel
  | fuel + 1, .arithmetic => sum (fuel + 1) (nested fuel) .arithmetic
  | fuel + 1, .condition => disjunction (fuel + 1) (nested fuel)

def expression (fuel : Nat) : Parse Expr := nested fuel .arithmetic

def condition (fuel : Nat) : Parse Expr := nested fuel .condition

end Parse

end MiniPascal
