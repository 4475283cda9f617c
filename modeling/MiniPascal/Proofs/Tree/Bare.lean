import MiniPascal.Lexical.Token
import MiniPascal.Tree.Basic

/-!
# Trees without positions

Where things stand in a text does not count for what they mean.  `bare` puts everything nowhere, so
that two trees are the same up to positions if their bare trees are equal.
-/

namespace MiniPascal

/-- Things whose positions can be forgotten. -/
class Placed (α : Type) where
  bare : α → α

def Token.bare (token : Token) : Token := { token with position := .nowhere }

mutual

def Expr.bare : Expr → Expr
  | .ident name _ => .ident name .nowhere
  | .number value _ => .number value .nowhere
  | .literal text _ => .literal text .nowhere
  | .binary op left right _ => .binary op left.bare right.bare .nowhere
  | .negate operand _ => .negate operand.bare .nowhere
  | .not operand _ => .not operand.bare .nowhere
  | .element array index _ => .element array index.bare .nowhere
  | .call callee arguments _ => .call callee (Expr.bareAll arguments) .nowhere

def Expr.bareAll : List Expr → List Expr
  | [] => []
  | first :: others => first.bare :: Expr.bareAll others

end

def DataType.bare : DataType → DataType
  | integer => integer
  | array low high => array low.bare high.bare

def VarGroup.bare (group : VarGroup) : VarGroup := ⟨group.names, group.type.bare, .nowhere⟩

def Assignment.bare (assignment : Assignment) : Assignment :=
  ⟨assignment.target.bare, assignment.value.bare, .nowhere⟩

def Heading.bare (heading : Heading) : Heading :=
  ⟨heading.name, heading.parameters.map VarGroup.bare, heading.returns.map DataType.bare, .nowhere⟩

mutual

def Statement.bare : Statement → Statement
  | .program name => .program name
  | .vars group => .vars group.bare
  | .constant name value _ => .constant name value.bare .nowhere
  | .forward heading => .forward heading.bare
  | .callable heading body => .callable heading.bare (Statement.bareAll body)
  | .call callee arguments _ => .call callee (Expr.bareAll arguments) .nowhere
  | .assign assignment => .assign assignment.bare
  | .block statements => .block (Statement.bareAll statements)
  | .ifThen condition holds _ => .ifThen condition.bare holds.bare .nowhere
  | .ifThenElse condition holds fails _ =>
      .ifThenElse condition.bare holds.bare fails.bare .nowhere
  | .whileLoop id condition body _ => .whileLoop id condition.bare body.bare .nowhere
  | .forLoop id initial direction limit body _ =>
      .forLoop id initial.bare direction limit.bare body.bare .nowhere
  | .leave loop _ => .leave loop .nowhere

def Statement.bareAll : List Statement → List Statement
  | [] => []
  | first :: others => first.bare :: Statement.bareAll others

end

def Program.bare (program : Program) : Program := ⟨Statement.bareAll program.statements⟩

instance : Placed Unit := ⟨id⟩
instance : Placed String := ⟨id⟩
instance : Placed LoopId := ⟨id⟩
instance : Placed Direction := ⟨id⟩
instance : Placed BinaryOp := ⟨id⟩
instance : Placed Position := ⟨fun _ => .nowhere⟩
instance : Placed Token := ⟨Token.bare⟩
instance : Placed Expr := ⟨Expr.bare⟩
instance : Placed DataType := ⟨DataType.bare⟩
instance : Placed VarGroup := ⟨VarGroup.bare⟩
instance : Placed Assignment := ⟨Assignment.bare⟩
instance : Placed Heading := ⟨Heading.bare⟩
instance : Placed Statement := ⟨Statement.bare⟩
instance : Placed Program := ⟨Program.bare⟩

section

variable {α β : Type} [Placed α] [Placed β]

instance : Placed (List α) := ⟨List.map Placed.bare⟩
instance : Placed (Option α) := ⟨Option.map Placed.bare⟩
instance : Placed (α × β) := ⟨Prod.map Placed.bare Placed.bare⟩

end

namespace Placed

variable {α : Type} [Placed α]

theorem bare_append (first second : List α) : bare (first ++ second) = bare first ++ bare second :=
  List.map_append

theorem bare_flatten (lists : List (List α)) : bare lists.flatten = (bare lists).flatten :=
  List.map_flatten

end Placed

theorem Expr.bareAll_eq (expressions : List Expr) :
    Expr.bareAll expressions = Placed.bare expressions := by
  induction expressions with
  | nil => rfl
  | cons first others ih => exact congrArg (first.bare :: ·) ih

theorem Statement.bareAll_eq (statements : List Statement) :
    Statement.bareAll statements = Placed.bare statements := by
  induction statements with
  | nil => rfl
  | cons first others ih => exact congrArg (first.bare :: ·) ih

end MiniPascal
