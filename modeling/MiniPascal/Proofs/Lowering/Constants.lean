import MiniPascal.Proofs.Evaluation.Basic
import MiniPascal.Proofs.Lowering.Composed
import MiniPascal.Proofs.Tree.Grammatical

/-!
# Translation of constants

Where a constant is required, the translation of an expression is its evaluation: it emits nothing,
and its operand is the value that the tree has.
-/

namespace MiniPascal

open IR (Operand)

def SymbolTable.constant? (table : SymbolTable) (name : String) : Option Int32 :=
  (table.get? name).bind (·.constant)

/-- Operators outside of conditions fold, but for a division by zero. -/
theorem BinaryOp.emit_int {op : BinaryOp} (arithmetic : op.isArithmetic) (left right : Int32)
    (builder : IR.Builder) :
    (op.divides ∧ right = 0) ∨
      ∃ value, op.compute? left right = some value ∧
        op.emit (.int left) (.int right) builder = (.int value, builder) := by
  cases op with
  | add | sub | mul =>
      exact .inr ⟨_, rfl, rfl⟩
  | div | mod =>
      by_cases isZero : right = 0
      · exact .inl ⟨rfl, isZero⟩
      · refine .inr ⟨_, if_neg isZero, ?_⟩
        simp only [emit, IR.Build.arith, IR.ArithOp.fold?, IR.ArithOp.evaluate?, isZero, if_false]
        rfl
  | _ => simp [isArithmetic] at arithmetic

namespace Lower

theorem ensures_constantName (name : String) (position : Position) (state : Lowering) :
    Ensures (nameValue .constant name position) (fun operand state' => state' = state ∧
      ∃ value, operand = .int value ∧ state.symbols.constant? name = some value) state := by
  unfold nameValue
  rw [ensures_bind]
  refine ensures_ask fun entry isEntry => ?_
  obtain ⟨found, isSome⟩ := SymbolTable.constant_eq_ok.1 isEntry
  obtain ⟨value, isConstant⟩ := Option.isSome_iff_exists.1 isSome
  simp [isConstant, SymbolTable.constant?, found]

/-- A constant expression is evaluated, and nothing is emitted. -/
theorem ensures_constant (expr : Expr) (fits : expr.Fits .arithmetic) (state : Lowering) :
    Ensures (expression .constant expr) (fun operand state' => state' = state ∧
      ∃ value, operand = .int value ∧
        expr.constant? state.symbols.constant? = some value) state := by
  induction expr using Expr.rec (motive_2 := fun _ => True) generalizing state with
  | ident name position => exact ensures_constantName name position state
  | number value position => simp [expression, Expr.constant?]
  | literal text position => exact fits.elim
  | binary op left right position left_ih right_ih =>
      obtain ⟨arithmetic, leftFits, rightFits⟩ := by simpa [Expr.Fits] using fits
      rw [expression, ensures_bind]
      refine (left_ih leftFits state).mono ?_
      rintro _ _ ⟨rfl, first, rfl, isFirst⟩
      rw [ensures_bind]
      refine (right_ih rightFits _).mono ?_
      rintro _ state ⟨rfl, second, rfl, isSecond⟩
      by_cases divides : op.divides ∧ second = 0
      · simp [divides]
      · rcases op.emit_int arithmetic first second state.builder with
          undefined | ⟨value, isValue, folded⟩
        · exact absurd undefined divides
        · simp [if_neg divides, folded, Expr.constant?, isFirst, isSecond, isValue]
  | negate operand position ih =>
      rw [expression, ensures_bind]
      refine (ih fits state).mono ?_
      rintro _ _ ⟨rfl, value, rfl, isValue⟩
      rw [Lower.ensures_build]
      exact ⟨rfl, -value, rfl, by simp [Expr.constant?, isValue]⟩
  | not operand position ih => simp [Expr.Fits] at fits
  | element array index position ih => simp [expression, requireRunning]
  | call name arguments position ih => simp [expression, requireRunning]
  | nil => trivial
  | cons first others first_ih others_ih => trivial

theorem ensures_constantValue (expr : Expr) (fits : expr.Fits .arithmetic) (state : Lowering) :
    Ensures (constantValue expr) (fun value state' => state' = state ∧
      expr.constant? state.symbols.constant? = some value) state := by
  unfold constantValue
  rw [ensures_bind]
  refine (ensures_constant expr fits state).mono ?_
  rintro _ _ ⟨rfl, value, rfl, isValue⟩
  simp [isValue]

end Lower

end MiniPascal
