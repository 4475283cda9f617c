import MiniPascal.Proofs.Ensures
import MiniPascal.Proofs.Tree.Literals

/-!
# Evaluating numbers that are held in variables

A tree and one that abstracts it are evaluated alike: where the one has a number, the other reads a
variable that holds it.
-/

namespace MiniPascal

open Evaluation (Eval Memory Names Scope Meaning Stop Progress)

namespace Evaluation

variable {settings : Settings} {invoke other : Heading → List Statement → List Int32 → Eval (Option Int32)}
  {scope scope' : Scope}

def computed : Option Int32 → Eval Int32
  | some value => return value
  | none => throw .divisionByZero

structure Scope.Sees (scope : Scope) (settings : Settings) : Prop where
  writeln : scope.find? Builtin.writeln.name = some (.builtin .writeln)
  settings : ∀ setting ∈ settings, scope.find? setting.1 = some (.scalar (.global setting.1))

def Memory.Has (memory : Memory) (settings : Settings) : Prop :=
  ∀ setting ∈ settings, memory.globals setting.1 = setting.2

/-! ### Expressions -/

theorem bind_computed {action : Eval Int32} {number? : Option Int32} {memory : Memory}
    (isNumber : action memory = computed number? memory) {next : Int32 → Eval Int32}
    {result? : Int32 → Option Int32}
    (h : ∀ number, next number memory = computed (result? number) memory) :
    (action >>= next) memory = computed (number?.bind result?) memory := by
  cases number? with
  | none => exact bind_of_error _ isNumber
  | some number => exact (bind_of_ok _ isNumber).trans (h number)

theorem value_abstracts {expr expr' : Expr} (abstracts : expr.Abstracts settings expr')
    (sees : ∀ setting ∈ settings, scope.find? setting.1 = some (.scalar (.global setting.1)))
    {memory : Memory} (has : memory.Has settings) :
    value invoke scope expr' memory = computed (expr.constant? fun _ => none) memory := by
  induction abstracts with
  | number => rfl
  | held isSet =>
      rw [value, nameValue, sees _ isSet]
      exact congrArg (EStateM.Result.ok · memory) (has _ isSet)
  | binary op _ _ _ _ left_ih right_ih =>
      rw [value]
      refine bind_computed left_ih fun first => bind_computed right_ih fun second => ?_
      cases op.compute? first second <;> rfl
  | negate _ _ _ ih =>
      rw [value]
      exact bind_computed ih fun number => rfl
  | not _ _ _ ih =>
      rw [value]
      exact bind_computed ih fun number => rfl

theorem value_closed {expr : Expr} {number : Int32}
    (isValue : expr.constant? (fun _ => none) = some number) (memory : Memory) :
    value invoke scope expr memory = .ok number memory := by
  rw [value_abstracts (Expr.closed_of_constant? isValue) (by simp) (by simp [Memory.Has]), isValue]
  rfl

/-! ### Statements -/

/-- Two evaluations have come to the same point, and the variables of the second one hold their values. -/
structure Memory.Alike (settings : Settings) (memory memory' : Memory) : Prop where
  result : memory.result = memory'.result
  output : memory.output = memory'.output
  input : memory.input = memory'.input
  has : memory'.Has settings

inductive EndAlike (settings : Settings) :
    EStateM.Result Stop Memory Progress → EStateM.Result Stop Memory Progress → Prop
  | next {memory memory' : Memory} (alike : memory.Alike settings memory') :
      EndAlike settings (.ok .next memory) (.ok .next memory')
  | divided {memory memory' : Memory} (output : memory.output = memory'.output)
      (input : memory.input = memory'.input) :
      EndAlike settings (.error .divisionByZero memory) (.error .divisionByZero memory')

theorem EndAlike.value {expr expr' : Expr} (abstracts : expr.Abstracts settings expr')
    (sees : scope.Sees []) (sees' : scope'.Sees settings) {memory memory' : Memory}
    (alike : memory.Alike settings memory') {next next' : Int32 → Eval Progress}
    (h : ∀ number, EndAlike settings (next number memory) (next' number memory')) :
    EndAlike settings ((Evaluation.value invoke scope expr >>= next) memory)
      ((Evaluation.value other scope' expr' >>= next') memory') := by
  have isValue : Evaluation.value invoke scope expr memory =
      computed (expr.constant? fun _ => none) memory :=
    value_abstracts abstracts.closed sees.settings fun _ isIn => by cases isIn
  have isValue' : Evaluation.value other scope' expr' memory' =
      computed (expr.constant? fun _ => none) memory' := value_abstracts abstracts sees'.settings alike.has
  cases isConstant : expr.constant? fun _ => none with
  | none =>
      rw [isConstant] at isValue isValue'
      rw [bind_of_error next isValue, bind_of_error next' isValue']
      exact .divided alike.output alike.input
  | some number =>
      rw [isConstant] at isValue isValue'
      rw [bind_of_ok next isValue, bind_of_ok next' isValue']
      exact h number

theorem EndAlike.bind {first first' : Eval Progress} {memory memory' : Memory}
    (front : EndAlike settings (first memory) (first' memory')) {next next' : Progress → Eval Progress}
    (h : ∀ after after' : Memory, after.Alike settings after' →
      EndAlike settings (next .next after) (next' .next after')) :
    EndAlike settings ((first >>= next) memory) ((first' >>= next') memory') := by
  cases isFirst : first memory with
  | ok progress after =>
      cases isFirst' : first' memory' with
      | ok progress' after' =>
          rw [isFirst, isFirst'] at front
          rw [bind_of_ok next isFirst, bind_of_ok next' isFirst']
          cases front with
          | next alike => exact h after after' alike
      | error stop' after' =>
          rw [isFirst, isFirst'] at front
          cases front
  | error stop after =>
      cases isFirst' : first' memory' with
      | ok progress' after' =>
          rw [isFirst, isFirst'] at front
          cases front
      | error stop' after' =>
          rw [isFirst, isFirst'] at front
          rw [bind_of_error next isFirst, bind_of_error next' isFirst']
          cases front with
          | divided output input => exact .divided output input

theorem statement_writeln (sees : scope.Sees settings) (fuel : Nat) (expr : Expr)
    (position : Position) :
    statement invoke scope fuel (.call Builtin.writeln.name [expr] position) =
      value invoke scope expr >>= fun number => print (toString number ++ "\n") >>= fun _ =>
        return .next := by
  simp only [statement, call, sees.writeln, values, bind_assoc, pure_bind]

mutual

theorem statement_abstracts {tree tree' : Statement} (abstracts : tree.Abstracts settings tree')
    (sees : scope.Sees []) (sees' : scope'.Sees settings) {memory memory' : Memory}
    (alike : memory.Alike settings memory') (fuel fuel' : Nat) :
    EndAlike settings (statement invoke scope fuel tree memory)
      (statement other scope' fuel' tree' memory') := by
  cases abstracts with
  | writeln onExpr position position' =>
      rw [statement_writeln sees, statement_writeln sees']
      refine EndAlike.value onExpr sees sees' alike fun number => ?_
      have sameOutput : memory.output ++ (toString number ++ "\n") =
          memory'.output ++ (toString number ++ "\n") := by rw [alike.output]
      exact .next ⟨alike.result, sameOutput, alike.input, alike.has⟩
  | block onBody =>
      rw [statement, statement]
      exact statements_abstracts onBody sees sees' alike fuel fuel'
  | ifThen onTest onHolds position position' =>
      rw [statement, statement, holds, holds, bind_assoc, bind_assoc]
      refine EndAlike.value onTest sees sees' alike fun number => ?_
      simp only [pure_bind]
      split
      · exact statement_abstracts onHolds sees sees' alike fuel fuel'
      · exact .next alike
  | ifThenElse onTest onHolds onFails position position' =>
      rw [statement, statement, holds, holds, bind_assoc, bind_assoc]
      refine EndAlike.value onTest sees sees' alike fun number => ?_
      simp only [pure_bind]
      split
      · exact statement_abstracts onHolds sees sees' alike fuel fuel'
      · exact statement_abstracts onFails sees sees' alike fuel fuel'

theorem statements_abstracts {body body' : List Statement}
    (abstracts : Statement.AbstractsAll settings body body') (sees : scope.Sees [])
    (sees' : scope'.Sees settings) {memory memory' : Memory}
    (alike : memory.Alike settings memory') (fuel fuel' : Nat) :
    EndAlike settings (statements invoke scope fuel body memory)
      (statements other scope' fuel' body' memory') := by
  cases abstracts with
  | nil => exact .next alike
  | @cons first first' others others' onFirst onOthers =>
      rw [statements, statements]
      refine (statement_abstracts onFirst sees sees' alike fuel fuel').bind fun after after' alike => ?_
      exact statements_abstracts onOthers sees sees' alike fuel fuel'

end

end Evaluation

end MiniPascal
