import MiniPascal.Tree.Basic

/-!
# Printing trees as source text

`Program.render` writes a program that can be read again.  Every binary operation is put in
parentheses, and a branch in front of an `else` is always a block, so that no `else` attaches to an
inner `if`.
-/

namespace MiniPascal

def indentation (depth : Nat) : String := String.join (List.replicate depth "  ")

def commaSeparated (items : List String) : String := ", ".intercalate items

/-- The text of a call: a list of arguments that is empty is left out. -/
def renderCall (callee : String) (arguments : List String) : String :=
  if arguments.isEmpty then callee else callee ++ "(" ++ commaSeparated arguments ++ ")"

mutual

def Expr.render : Expr → String
  | .ident name _ => name
  | .number value _ =>
      if value < 0 then "(-" ++ toString value.toInt.natAbs ++ ")" else toString value
  | .literal text _ => "'" ++ text ++ "'"
  | .binary op left right _ =>
      "(" ++ left.render ++ " " ++ op.spelling ++ " " ++ right.render ++ ")"
  | .negate operand _ => "(-" ++ operand.render ++ ")"
  | .not operand _ => "(not " ++ operand.render ++ ")"
  | .element array index _ => array ++ "[" ++ index.render ++ "]"
  | .call callee arguments _ => renderCall callee (renderAll arguments)

def Expr.renderAll : List Expr → List String
  | [] => []
  | argument :: arguments => argument.render :: renderAll arguments

end

def DataType.render : DataType → String
  | integer => "integer"
  | array low high => "array [" ++ low.render ++ " .. " ++ high.render ++ "] of integer"

def VarGroup.render (group : VarGroup) : String :=
  commaSeparated group.names ++ ": " ++ group.type.render

def Assignment.render (assignment : Assignment) : String :=
  assignment.target.render ++ " := " ++ assignment.value.render

def Direction.spelling : Direction → String
  | upward => "to"
  | downward => "downto"

def Heading.render (heading : Heading) : String :=
  let keyword := if heading.returns.isSome then "function " else "procedure "
  let parameters :=
    if heading.parameters.isEmpty then ""
    else "(" ++ "; ".intercalate (heading.parameters.map VarGroup.render) ++ ")"
  let type :=
    match heading.returns with
    | some type => ": " ++ type.render
    | none => ""
  keyword ++ heading.name ++ parameters ++ type

def renderItems (depth : Nat) : List String → String
  | [] => ""
  | [item] => indentation depth ++ item ++ "\n"
  | item :: items => indentation depth ++ item ++ ";\n" ++ renderItems depth items

def renderBlock (depth : Nat) (items : List String) : String :=
  "begin\n" ++ renderItems (depth + 1) items ++ indentation depth ++ "end"

mutual

/-- A statement inside of blocks, from the column where it starts and without a semicolon.
Declarations are not statements; a comment stands for one. -/
def Statement.render (depth : Nat) : Statement → String
  | .program name => "\x7b program " ++ name ++ " \x7d"
  | .vars _ | .constant _ _ _ | .forward _ | .callable _ _ => "\x7b declaration \x7d"
  | .call callee arguments _ => renderCall callee (Expr.renderAll arguments)
  | .assign assignment => assignment.render
  | .block statements => renderBlock depth (Statement.renderAll (depth + 1) statements)
  | .ifThen condition holds _ => "if " ++ condition.render ++ " then " ++ holds.render depth
  | .ifThenElse condition holds fails _ =>
      "if " ++ condition.render ++ " then " ++ holds.renderBraced depth ++ " else "
        ++ fails.render depth
  | .whileLoop _ condition body _ => "while " ++ condition.render ++ " do " ++ body.render depth
  | .forLoop _ initial direction limit body _ =>
      "for " ++ initial.render ++ " " ++ direction.spelling ++ " " ++ limit.render ++ " do "
        ++ body.render depth
  | .leave _ _ => "break"

def Statement.renderBraced (depth : Nat) : Statement → String
  | .block statements => renderBlock depth (Statement.renderAll (depth + 1) statements)
  | statement => renderBlock depth [statement.render (depth + 1)]

def Statement.renderAll (depth : Nat) : List Statement → List String
  | [] => []
  | statement :: statements => statement.render depth :: Statement.renderAll depth statements

end

mutual

def Statement.renderDeclaration (depth : Nat) : Statement → String
  | .program name => indentation depth ++ "program " ++ name ++ ";\n"
  | .vars group => indentation depth ++ "var " ++ group.render ++ ";\n"
  | .constant name value _ =>
      indentation depth ++ "const " ++ name ++ " = " ++ value.render ++ ";\n"
  | .forward heading => indentation depth ++ heading.render ++ "; forward;\n"
  | .callable heading body =>
      indentation depth ++ heading.render ++ ";\n" ++ Statement.renderBody depth body ++ ";\n"
  | statement => indentation depth ++ statement.render depth

/-- A callable's body: declarations as long as there are some, then a block. -/
def Statement.renderBody (depth : Nat) : List Statement → String
  | [] => indentation depth ++ renderBlock depth []
  | statement :: statements =>
      if statement.isDeclaration then
        statement.renderDeclaration (depth + 1) ++ Statement.renderBody depth statements
      else
        indentation depth
          ++ renderBlock depth (Statement.renderAll (depth + 1) (statement :: statements))

end

namespace Program

/-- A callable `main` is written as the program's own body, wherever it stands. -/
def renderTopLevel : Statement → String
  | .callable heading body =>
      if heading.name = mainName then
        renderBlock 0 (Statement.renderAll 1 body) ++ ".\n"
      else (Statement.callable heading body).renderDeclaration 0
  | .forward heading =>
      if heading.name = mainName then renderBlock 0 [] ++ ".\n"
      else (Statement.forward heading).renderDeclaration 0
  | statement => statement.renderDeclaration 0

def render (program : Program) : String :=
  String.join (program.statements.map renderTopLevel)

end Program

end MiniPascal
