import MiniPascal.IR.Basic

/-!
# Arithmetic on 32 bits

`ArithOp.evaluate?` and `Predicate.evaluate` say what the operations compute; `fold?` applies them
to constant operands.  Arithmetic wraps around, division truncates, and there is no quotient by zero.
-/

namespace MiniPascal.IR

namespace ArithOp

def evaluate? (op : ArithOp) (left right : Int32) : Option Int32 :=
  match op with
  | add => some (left + right)
  | sub => some (left - right)
  | mul => some (left * right)
  | div => if right = 0 then none else some (left / right)
  | rem => if right = 0 then none else some (left % right)
  | and => some (left &&& right)
  | or => some (left ||| right)
  | xor => some (left ^^^ right)

/-- The result on truth values, which have no arithmetic. -/
def evaluateBool? (op : ArithOp) (left right : Bool) : Option Bool :=
  match op with
  | and => some (left && right)
  | or => some (left || right)
  | xor => some (left != right)
  | add | sub | mul | div | rem => none

def fold? (op : ArithOp) (left right : Operand) : Option Operand :=
  match left, right with
  | .int left, .int right => (op.evaluate? left right).map .int
  | .bool left, .bool right => (op.evaluateBool? left right).map .bool
  | _, _ => none

end ArithOp

def boolToInt (value : Bool) : Int32 := if value then 1 else 0

namespace Predicate

def evaluate (predicate : Predicate) (left right : Int32) : Bool :=
  match predicate with
  | equal => left == right
  | notEqual => left != right
  | less => left < right
  | greater => left > right
  | lessEqual => left ≤ right
  | greaterEqual => left ≥ right

def fold? (predicate : Predicate) (left right : Operand) : Option Operand :=
  match left, right with
  | .int left, .int right => some (.bool (predicate.evaluate left right))
  | .bool left, .bool right =>
      some (.bool (predicate.evaluate (boolToInt left) (boolToInt right)))
  | _, _ => none

end Predicate

end MiniPascal.IR
