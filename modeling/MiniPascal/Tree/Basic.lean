import MiniPascal.Position

/-!
# Syntax trees

Expressions, types, statements and declarations of a program, each with the position it is reported
at.  A program is a list of top-level statements; its own body is the callable `main`.
-/

namespace MiniPascal

/-- The callable that holds the program's own body. -/
def mainName : String := "main"

structure LoopId where
  index : Nat
  deriving Repr, DecidableEq, Inhabited

inductive BinaryOp where
  | add
  | sub
  | mul
  | div
  | mod
  | equal
  | notEqual
  | less
  | greater
  | lessEqual
  | greaterEqual
  | and
  | or
  deriving Repr, DecidableEq, Inhabited

namespace BinaryOp

def spelling : BinaryOp → String
  | add => "+"
  | sub => "-"
  | mul => "*"
  | div => "div"
  | mod => "mod"
  | equal => "="
  | notEqual => "<>"
  | less => "<"
  | greater => ">"
  | lessEqual => "<="
  | greaterEqual => ">="
  | and => "and"
  | or => "or"

def isRelational : BinaryOp → Bool
  | equal | notEqual | less | greater | lessEqual | greaterEqual => true
  | add | sub | mul | div | mod | and | or => false

end BinaryOp

inductive Expr where
  /-- A variable or a constant, or a callable used without arguments. -/
  | ident (name : String) (position : Position)
  | number (value : Int32) (position : Position)
  /-- Literal text, the argument of `write`. -/
  | literal (text : String) (position : Position)
  | binary (op : BinaryOp) (left right : Expr) (position : Position)
  | negate (operand : Expr) (position : Position)
  | not (operand : Expr) (position : Position)
  | element (array : String) (index : Expr) (position : Position)
  | call (callee : String) (arguments : List Expr) (position : Position)
  deriving Repr, Inhabited

namespace Expr

def position : Expr → Position
  | ident _ p | number _ p | literal _ p | binary _ _ _ p | negate _ p | not _ p | element _ _ p
  | call _ _ p => p

/-- The name of the storage that an expression stands for, if a value can be stored there. -/
def target? : Expr → Option String
  | ident name _ => some name
  | element array _ _ => some array
  | _ => none

end Expr

/-- A type as written; the bounds of an array are left unevaluated. -/
inductive DataType where
  | integer
  | array (low high : Expr)
  deriving Repr, Inhabited

structure VarGroup where
  names : List String
  type : DataType
  position : Position
  deriving Repr, Inhabited

structure Assignment where
  target : Expr
  value : Expr
  position : Position
  deriving Repr, Inhabited

inductive Direction where
  | upward
  | downward
  deriving Repr, DecidableEq, Inhabited

structure Heading where
  name : String
  parameters : List VarGroup
  returns : Option DataType
  position : Position
  deriving Repr, Inhabited

namespace Heading

def parameterNames (heading : Heading) : List String := heading.parameters.flatMap (·.names)

def parameterCount (heading : Heading) : Nat := heading.parameterNames.length

end Heading

inductive Statement where
  /-- The header `program name;`, which means nothing. -/
  | program (name : String)
  | vars (group : VarGroup)
  | constant (name : String) (value : Expr) (position : Position)
  | forward (heading : Heading)
  /-- A callable with its body: declarations, then actions. -/
  | callable (heading : Heading) (body : List Statement)
  | call (callee : String) (arguments : List Expr) (position : Position)
  | assign (assignment : Assignment)
  | block (statements : List Statement)
  | ifThen (condition : Expr) (holds : Statement) (position : Position)
  | ifThenElse (condition : Expr) (holds fails : Statement) (position : Position)
  | whileLoop (id : LoopId) (condition : Expr) (body : Statement) (position : Position)
  | forLoop (id : LoopId) (initial : Assignment) (direction : Direction) (limit : Expr)
      (body : Statement) (position : Position)
  | leave (loop : LoopId) (position : Position)
  deriving Repr, Inhabited

namespace Statement

def isDeclaration : Statement → Bool
  | program _ | vars _ | constant _ _ _ | forward _ | callable _ _ => true
  | _ => false

end Statement

/-- A whole program: its declarations, with the callable `main` behind them. -/
structure Program where
  statements : List Statement
  deriving Repr, Inhabited

end MiniPascal
