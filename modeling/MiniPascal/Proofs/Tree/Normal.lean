import MiniPascal.Proofs.Tree.Bare

/-!
# What a printed tree is read as

The text of a tree is read as a tree that differs from it in three ways: a negative number is a
negated one, a call without arguments in an expression is a name, and a branch in front of an `else`
is a block.
-/

namespace MiniPascal

mutual

def Expr.norm : Expr → Expr
  | .ident name position => .ident name position
  | .number value position =>
      if value < 0 then .negate (.number (-value) position) position else .number value position
  | .literal text position => .literal text position
  | .binary op left right position => .binary op left.norm right.norm position
  | .negate operand position => .negate operand.norm position
  | .not operand position => .not operand.norm position
  | .element array index position => .element array index.norm position
  | .call callee [] position => .ident callee position
  | .call callee (first :: others) position =>
      .call callee (first.norm :: Expr.normAll others) position

def Expr.normAll : List Expr → List Expr
  | [] => []
  | first :: others => first.norm :: Expr.normAll others

end

def DataType.norm : DataType → DataType
  | integer => integer
  | array low high => array low.norm high.norm

def VarGroup.norm (group : VarGroup) : VarGroup := { group with type := group.type.norm }

def Assignment.norm (assignment : Assignment) : Assignment :=
  { assignment with target := assignment.target.norm, value := assignment.value.norm }

def Heading.norm (heading : Heading) : Heading :=
  { heading with
    parameters := heading.parameters.map VarGroup.norm
    returns := heading.returns.map DataType.norm }

def Statement.braced : Statement → Statement
  | .block statements => .block statements
  | statement => .block [statement]

mutual

def Statement.norm : Statement → Statement
  | .program name => .program name
  | .vars group => .vars group.norm
  | .constant name value position => .constant name value.norm position
  | .forward heading => .forward heading.norm
  | .callable heading body => .callable heading.norm (Statement.normAll body)
  | .call callee arguments position => .call callee (Expr.normAll arguments) position
  | .assign assignment => .assign assignment.norm
  | .block statements => .block (Statement.normAll statements)
  | .ifThen condition holds position => .ifThen condition.norm holds.norm position
  | .ifThenElse condition holds fails position =>
      .ifThenElse condition.norm holds.norm.braced fails.norm position
  | .whileLoop id condition body position => .whileLoop id condition.norm body.norm position
  | .forLoop id initial direction limit body position =>
      .forLoop id initial.norm direction limit.norm body.norm position
  | .leave loop position => .leave loop position

def Statement.normAll : List Statement → List Statement
  | [] => []
  | first :: others => first.norm :: Statement.normAll others

end

def Program.norm (program : Program) : Program := ⟨Statement.normAll program.statements⟩

theorem Expr.normAll_eq (expressions : List Expr) :
    Expr.normAll expressions = expressions.map Expr.norm := by
  induction expressions with
  | nil => rfl
  | cons first others ih => exact congrArg (first.norm :: ·) ih

theorem Statement.normAll_eq (statements : List Statement) :
    Statement.normAll statements = statements.map Statement.norm := by
  induction statements with
  | nil => rfl
  | cons first others ih => exact congrArg (first.norm :: ·) ih

theorem Expr.norm_call (callee : String) {arguments : List Expr} (notEmpty : arguments ≠ [])
    (position : Position) :
    (Expr.call callee arguments position).norm = .call callee (Expr.normAll arguments) position := by
  cases arguments with
  | nil => exact absurd rfl notEmpty
  | cons first others => rfl

end MiniPascal
