import MiniPascal.Parser.Declaration
import MiniPascal.Proofs.Evaluation.Basic

/-!
# Numbers held in variables

A program that only prints and branches can have its numbers in variables instead, which it sets before
it does anything else.  Below, a tree abstracts another if it has variables in the place of some of its
numbers, each with the value of the number; positions do not count.
-/

namespace MiniPascal

abbrev Settings := List (String × Int32)

variable {settings : Settings}

/-! ### Expressions -/

/-- An expression over integers, and the same with variables in the place of some of them. -/
inductive Expr.Abstracts (settings : Settings) : Expr → Expr → Prop
  | number (value : Int32) (position position' : Position) :
      Abstracts settings (.number value position) (.number value position')
  | held {name : String} {value : Int32} (isSet : (name, value) ∈ settings)
      (position position' : Position) :
      Abstracts settings (.number value position) (.ident name position')
  | binary {left left' right right' : Expr} (op : BinaryOp) (onLeft : Abstracts settings left left')
      (onRight : Abstracts settings right right') (position position' : Position) :
      Abstracts settings (.binary op left right position) (.binary op left' right' position')
  | negate {operand operand' : Expr} (onOperand : Abstracts settings operand operand')
      (position position' : Position) :
      Abstracts settings (.negate operand position) (.negate operand' position')
  | not {operand operand' : Expr} (onOperand : Abstracts settings operand operand')
      (position position' : Position) :
      Abstracts settings (.not operand position) (.not operand' position')

theorem Expr.Abstracts.closed {expr expr' : Expr} (abstracts : expr.Abstracts settings expr') :
    expr.Abstracts [] expr := by
  induction abstracts with
  | number | held => exact .number _ _ _
  | binary op _ _ _ _ left_ih right_ih => exact .binary op left_ih right_ih _ _
  | negate _ _ _ ih => exact .negate ih _ _
  | not _ _ _ ih => exact .not ih _ _

/-- An expression that has a value whatever names mean has integers only. -/
theorem Expr.closed_of_constant? {expr : Expr} {value : Int32}
    (isValue : expr.constant? (fun _ => none) = some value) : expr.Abstracts [] expr := by
  induction expr using Expr.rec (motive_2 := fun _ => True) generalizing value with
  | number => exact .number _ _ _
  | binary op left right position left_ih right_ih =>
      obtain ⟨first, isFirst, rest⟩ := Option.bind_eq_some_iff.1 isValue
      obtain ⟨second, isSecond, -⟩ := Option.bind_eq_some_iff.1 rest
      exact .binary op (left_ih isFirst) (right_ih isSecond) _ _
  | negate operand position ih =>
      obtain ⟨inner, isInner, -⟩ := Option.bind_eq_some_iff.1 isValue
      exact .negate (ih isInner) _ _
  | not operand position ih =>
      obtain ⟨inner, isInner, -⟩ := Option.bind_eq_some_iff.1 isValue
      exact .not (ih isInner) _ _
  | nil | cons => trivial
  | _ => cases isValue

/-! ### Statements -/

mutual

/-- A statement that prints and branches, and the same with variables in the place of integers. -/
inductive Statement.Abstracts (settings : Settings) : Statement → Statement → Prop
  | writeln {expr expr' : Expr} (onExpr : expr.Abstracts settings expr')
      (position position' : Position) :
      Abstracts settings (.call Builtin.writeln.name [expr] position)
        (.call Builtin.writeln.name [expr'] position')
  | block {body body' : List Statement} (onBody : AbstractsAll settings body body') :
      Abstracts settings (.block body) (.block body')
  | ifThen {test test' : Expr} {holds holds' : Statement} (onTest : test.Abstracts settings test')
      (onHolds : Abstracts settings holds holds') (position position' : Position) :
      Abstracts settings (.ifThen test holds position) (.ifThen test' holds' position')
  | ifThenElse {test test' : Expr} {holds holds' fails fails' : Statement}
      (onTest : test.Abstracts settings test') (onHolds : Abstracts settings holds holds')
      (onFails : Abstracts settings fails fails') (position position' : Position) :
      Abstracts settings (.ifThenElse test holds fails position)
        (.ifThenElse test' holds' fails' position')

inductive Statement.AbstractsAll (settings : Settings) : List Statement → List Statement → Prop
  | nil : AbstractsAll settings [] []
  | cons {first first' : Statement} {others others' : List Statement}
      (onFirst : Abstracts settings first first') (onOthers : AbstractsAll settings others others') :
      AbstractsAll settings (first :: others) (first' :: others')

end

mutual

theorem Statement.Abstracts.closed {statement statement' : Statement}
    (abstracts : statement.Abstracts settings statement') : statement.Abstracts [] statement := by
  cases abstracts with
  | writeln onExpr => exact .writeln onExpr.closed _ _
  | block onBody => exact .block onBody.closed
  | ifThen onTest onHolds => exact .ifThen onTest.closed onHolds.closed _ _
  | ifThenElse onTest onHolds onFails =>
      exact .ifThenElse onTest.closed onHolds.closed onFails.closed _ _

theorem Statement.AbstractsAll.closed {body body' : List Statement}
    (abstracts : AbstractsAll settings body body') : AbstractsAll [] body body := by
  cases abstracts with
  | nil => exact .nil
  | cons onFirst onOthers => exact .cons onFirst.closed onOthers.closed

end

theorem Statement.AbstractsAll.isDeclaration {body body' : List Statement}
    (abstracts : AbstractsAll settings body body') {statement : Statement}
    (isIn : statement ∈ body') : statement.isDeclaration = false := by
  cases abstracts with
  | nil => cases isIn
  | cons onFirst onOthers =>
      rcases List.mem_cons.1 isIn with rfl | isLater
      · cases onFirst <;> rfl
      · exact onOthers.isDeclaration isLater

/-! ### Programs -/

inductive AreVariables : List String → List Statement → Prop
  | nil : AreVariables [] []
  | cons {others : List String} {declarations : List Statement} (names : List String)
      (position : Position) (onOthers : AreVariables others declarations) :
      AreVariables (names ++ others) (.vars ⟨names, .integer, position⟩ :: declarations)

inductive AreAssigned : Settings → List Statement → Prop
  | nil : AreAssigned [] []
  | cons {name : String} {value : Int32} {initial : Expr} {others : Settings}
      {assignments : List Statement} (isValue : initial.constant? (fun _ => none) = some value)
      (place position : Position) (onOthers : AreAssigned others assignments) :
      AreAssigned ((name, value) :: others)
        (.assign ⟨.ident name place, initial, position⟩ :: assignments)

theorem AreAssigned.isDeclaration {assignments : List Statement}
    (areAssigned : AreAssigned settings assignments) {statement : Statement}
    (isIn : statement ∈ assignments) : statement.isDeclaration = false := by
  induction areAssigned with
  | nil => cases isIn
  | cons isValue place position onOthers ih =>
      rcases List.mem_cons.1 isIn with rfl | isLater
      · rfl
      · exact ih isLater

def Program.Sets (program : Program) (settings : Settings) (body : List Statement) : Prop :=
  ∃ header declarations assignments position,
    program.statements =
      header ++ declarations ++ [Parse.mainCallable position (assignments ++ body)] ∧
    (header = [] ∨ ∃ name, header = [.program name]) ∧
    AreVariables (settings.map Prod.fst) declarations ∧ AreAssigned settings assignments

structure AreFree (names : List String) : Prop where
  distinct : names.Nodup
  notBuiltin : ∀ name ∈ names, Builtin.ofName? name = none
  notMain : mainName ∉ names
  notResult : ∀ name ∈ names, ∀ callable, name ≠ resultName callable

theorem areFree_nil : AreFree [] := ⟨.nil, by simp, by simp, by simp⟩

end MiniPascal
