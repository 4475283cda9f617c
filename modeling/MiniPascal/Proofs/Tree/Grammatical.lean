import MiniPascal.Lexical.Scan
import MiniPascal.Parser.Declaration

/-!
# Trees that can be written

The predicates below describe the trees that the grammar has derivations for: names are spelled as
identifiers, conditions stand only where the grammar allows them, literal text stands only behind
`write`, declarations come before actions, every `break` leaves the loop around it, and loops are
numbered in the order in which they are written.
-/

namespace MiniPascal

def IsWord (text : String) : Prop :=
  text.length ≤ maxIdentifierLength ∧
    ∃ first rest, text.toList = first :: rest ∧ SymbolClass.ofChar first = .letter ∧
      ∀ char ∈ rest, SymbolClass.ofChar char = .letter ∨ SymbolClass.ofChar char = .digit

def IsIdentifier (text : String) : Prop := IsWord text ∧ TokenKind.ofSpelling text = .ident

/-! ### Expressions -/

def BinaryOp.isArithmetic : BinaryOp → Bool
  | add | sub | mul | div | mod => true
  | _ => false

/-- What the grammar asks of arguments for their number and kind: `write` has literal text, `readln`
and `dec` have places. -/
def ArgumentShape (callee : String) (arguments : List Expr) : Prop :=
  match Builtin.ofName? callee with
  | some .write =>
      ∃ text position, arguments = [.literal text position] ∧ '\'' ∉ text.toList
  | some .readln | some .dec => ∀ argument ∈ arguments, argument.target?.isSome
  | _ => True

mutual

/-- An expression that the grammar derives outside of conditions, or inside of them. -/
def Expr.Fits (grammar : Grammar) : Expr → Prop
  | .ident name _ => IsIdentifier name
  | .number _ _ => True
  | .literal _ _ => False
  | .binary op left right _ =>
      (grammar = .arithmetic → op.isArithmetic) ∧ left.Fits grammar ∧ right.Fits grammar
  | .negate operand _ => operand.Fits grammar
  | .not operand _ => grammar = .condition ∧ operand.Fits grammar
  | .element array index _ => IsIdentifier array ∧ index.Fits .arithmetic
  | .call callee arguments _ =>
      IsIdentifier callee ∧ ArgumentShape callee arguments ∧
        (Builtin.ofName? callee ≠ some .write → Expr.AllFit arguments)

def Expr.AllFit : List Expr → Prop
  | [] => True
  | first :: others => first.Fits .arithmetic ∧ Expr.AllFit others

end

def ArgumentsFit (callee : String) (arguments : List Expr) : Prop :=
  ArgumentShape callee arguments ∧
    (Builtin.ofName? callee ≠ some .write → Expr.AllFit arguments)

/-! ### Statements -/

def DataType.Fits : DataType → Prop
  | integer => True
  | array low high => low.Fits .arithmetic ∧ high.Fits .arithmetic

def VarGroup.Fits (group : VarGroup) : Prop :=
  group.names ≠ [] ∧ (∀ name ∈ group.names, IsIdentifier name) ∧ group.type.Fits

def Heading.Fits (heading : Heading) : Prop :=
  IsIdentifier heading.name ∧
    (∀ group ∈ heading.parameters, group.Fits ∧ group.type = .integer) ∧
    (heading.returns = none ∨ heading.returns = some .integer)

mutual

def Statement.loops : Statement → Nat
  | .block statements | .callable _ statements => Statement.totalLoops statements
  | .ifThen _ holds _ => holds.loops
  | .ifThenElse _ holds fails _ => holds.loops + fails.loops
  | .whileLoop _ _ body _ | .forLoop _ _ _ _ body _ => body.loops + 1
  | _ => 0

def Statement.totalLoops : List Statement → Nat
  | [] => 0
  | first :: others => first.loops + Statement.totalLoops others

end

mutual

/-- A statement that is no declaration, inside of a loop or of none; its own loops are numbered from
`next` on. -/
def Statement.IsAction (loop : Option LoopId) (next : Nat) : Statement → Prop
  | .call callee arguments _ =>
      IsIdentifier callee ∧ (arguments = [] ∨ ArgumentsFit callee arguments)
  | .assign assignment =>
      assignment.target.target?.isSome ∧ assignment.target.Fits .arithmetic ∧
        assignment.value.Fits .arithmetic
  | .block statements => Statement.AreActions loop next statements
  | .ifThen condition holds _ => condition.Fits .condition ∧ holds.IsAction loop next
  | .ifThenElse condition holds fails _ =>
      condition.Fits .condition ∧ holds.IsAction loop next ∧
        fails.IsAction loop (next + holds.loops)
  | .whileLoop id condition body _ =>
      id = ⟨next⟩ ∧ condition.Fits .condition ∧ body.IsAction (some id) (next + 1)
  | .forLoop id initial _ limit body _ =>
      id = ⟨next⟩ ∧
        (∃ counter position, initial.target = .ident counter position ∧ IsIdentifier counter) ∧
        initial.value.Fits .arithmetic ∧ limit.Fits .arithmetic ∧
        body.IsAction (some id) (next + 1)
  | .leave id _ => loop = some id
  | _ => False

def Statement.AreActions (loop : Option LoopId) (next : Nat) : List Statement → Prop
  | [] => True
  | first :: others =>
      first.IsAction loop next ∧ Statement.AreActions loop (next + first.loops) others

end

def Statement.IsStorage : Statement → Prop
  | .vars group => group.Fits
  | .constant name value _ => IsIdentifier name ∧ value.Fits .arithmetic
  | _ => False

def IsBody (next : Nat) (body : List Statement) : Prop :=
  ∃ declarations actions, body = declarations ++ actions ∧
    (∀ declaration ∈ declarations, declaration.IsStorage) ∧
    Statement.AreActions none next actions

def Statement.IsTopLevel (next : Nat) : Statement → Prop
  | .forward heading => heading.Fits
  | .callable heading body => heading.Fits ∧ IsBody next body
  | statement => statement.IsStorage

def Statement.AreTopLevel (next : Nat) : List Statement → Prop
  | [] => True
  | first :: others =>
      first.IsTopLevel next ∧ Statement.AreTopLevel (next + first.loops) others

def Program.Grammatical (program : Program) : Prop :=
  ∃ header declarations position actions,
    program.statements = header ++ declarations ++ [Parse.mainCallable position actions] ∧
    (header = [] ∨ ∃ name, IsIdentifier name ∧ header = [.program name]) ∧
    Statement.AreTopLevel 0 declarations ∧
    Statement.AreActions none (Statement.totalLoops declarations) actions

end MiniPascal
