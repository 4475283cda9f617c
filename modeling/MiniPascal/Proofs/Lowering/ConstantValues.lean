import MiniPascal.Proofs.Lowering.Constants
import Mathlib.Algebra.Group.Nat.Defs

/-!
# Exact values of constants

Which expressions are constants, told from the parts that they have, and which integers they are, told
with integers that have no limits and are wrapped into 32 bits behind each operation.  The translation
of an expression that must be a constant comes to an end either way, and leaves everything as it was.
-/

namespace MiniPascal

/-! ### Constants by their parts -/

inductive Expr.PartOf : Expr → Expr → Prop where
  | all (expr : Expr) : PartOf expr expr
  | left {part left : Expr} (isPart : PartOf part left) (op : BinaryOp) (right : Expr)
      (position : Position) : PartOf part (.binary op left right position)
  | right {part right : Expr} (isPart : PartOf part right) (op : BinaryOp) (left : Expr)
      (position : Position) : PartOf part (.binary op left right position)
  | negate {part operand : Expr} (isPart : PartOf part operand) (position : Position) :
      PartOf part (.negate operand position)
  | not {part operand : Expr} (isPart : PartOf part operand) (position : Position) :
      PartOf part (.not operand position)
  | index {part index : Expr} (isPart : PartOf part index) (array : String) (position : Position) :
      PartOf part (.element array index position)
  | argument {part argument : Expr} {arguments : List Expr} (isPart : PartOf part argument)
      (isArgument : argument ∈ arguments) (callee : String) (position : Position) :
      PartOf part (.call callee arguments position)

/-- The integer with 32 bits and a sign that differs from another by a multiple of `2 ^ 32`. -/
def wrapped (value : Int) : Int := value.bmod (2 ^ 32)

/-- Operations outside of conditions on integers.  Quotients are cut off towards zero, and remainders
have the sign of the dividend. -/
def BinaryOp.integer (op : BinaryOp) (left right : Int) : Int :=
  match op with
  | add => left + right
  | sub => left - right
  | mul => left * right
  | div => left.tdiv right
  | mod => left.tmod right
  | _ => 0

def Expr.integer (constants : String → Option Int32) : Expr → Int
  | ident name _ => ((constants name).map Int32.toInt).getD 0
  | number value _ => value.toInt
  | binary op left right _ => wrapped (op.integer (left.integer constants) (right.integer constants))
  | negate operand _ => wrapped (-operand.integer constants)
  | literal _ _ | not _ _ | element _ _ _ | call _ _ _ => 0

/-- What a part of a constant may be: no call and no element, a name only of a constant, and a division
only by what is not zero. -/
def Expr.MayBePart (constants : String → Option Int32) : Expr → Prop
  | ident name _ => (constants name).isSome
  | binary op _ right _ => op.divides → right.integer constants ≠ 0
  | element _ _ _ | call _ _ _ => False
  | number _ _ | literal _ _ | negate _ _ | not _ _ => True

def Expr.IsConstant (constants : String → Option Int32) (expr : Expr) : Prop :=
  ∀ part : Expr, part.PartOf expr → part.MayBePart constants

namespace Expr

variable {constants : String → Option Int32} {op : BinaryOp} {left right operand : Expr}
  {position : Position}

theorem isConstant_ident_iff {name : String} :
    (ident name position).IsConstant constants ↔ (constants name).isSome := by
  constructor
  · exact fun isConstant => isConstant _ (.all _)
  · rintro isSome part ⟨⟩
    exact isSome

theorem isConstant_number (value : Int32) : (number value position).IsConstant constants := by
  rintro part ⟨⟩
  trivial

theorem isConstant_binary_iff :
    (binary op left right position).IsConstant constants ↔
      left.IsConstant constants ∧ right.IsConstant constants ∧
        (op.divides → right.integer constants ≠ 0) := by
  constructor
  · intro isConstant
    exact ⟨fun part isPart => isConstant part (.left isPart op right position),
      fun part isPart => isConstant part (.right isPart op left position), isConstant _ (.all _)⟩
  · rintro ⟨isLeft, isRight, isDivisor⟩ part isPart
    cases isPart with
    | all => exact isDivisor
    | left isPart => exact isLeft part isPart
    | right isPart => exact isRight part isPart

theorem isConstant_negate_iff :
    (negate operand position).IsConstant constants ↔ operand.IsConstant constants := by
  constructor
  · exact fun isConstant part isPart => isConstant part (.negate isPart position)
  · intro isOperand part isPart
    cases isPart with
    | all => trivial
    | negate isPart => exact isOperand part isPart

end Expr

/-! ### Operations in 32 bits -/

theorem wrapped_toInt (value : Int32) : wrapped value.toInt = value.toInt := by
  have low := value.le_toInt
  have high := value.toInt_lt
  exact Int.bmod_eq_of_le (by omega) (by omega)

/-- Operations on 32 bits are those on integers, wrapped around. -/
theorem BinaryOp.toInt_compute? {op : BinaryOp} {left right value : Int32}
    (arithmetic : op.isArithmetic) (isValue : op.compute? left right = some value) :
    value.toInt = wrapped (op.integer left.toInt right.toInt) := by
  cases op with
  | add =>
      cases isValue
      exact Int32.toInt_add ..
  | sub =>
      cases isValue
      exact Int32.toInt_sub ..
  | mul =>
      cases isValue
      exact Int32.toInt_mul ..
  | div =>
      obtain ⟨-, isValue⟩ := Option.ite_none_left_eq_some.1 isValue
      cases isValue
      exact Int32.toInt_div ..
  | mod =>
      obtain ⟨-, isValue⟩ := Option.ite_none_left_eq_some.1 isValue
      cases isValue
      rw [integer, ← Int32.toInt_mod, wrapped_toInt]
  | _ => simp [isArithmetic] at arithmetic

/-! ### Success and failure -/

namespace Lower

variable {state : Lowering} {expr : Expr}

/-- The translation of an expression where a constant is required: the value, or an error if it is none.
Nothing changes either way. -/
def Decides (expr : Expr) (state : Lowering) : Prop :=
  (∃ value : Int32, expression .constant expr state = .ok (.int value) state ∧
    expr.IsConstant state.symbols.constant? ∧
    value.toInt = expr.integer state.symbols.constant?) ∨
  (∃ error, expression .constant expr state = .error error state) ∧
    ¬ expr.IsConstant state.symbols.constant?

theorem decides_ident (name : String) (position : Position) :
    Decides (.ident name position) state := by
  rw [Decides, Expr.isConstant_ident_iff]
  cases found : state.symbols.get? name with
  | none =>
      refine .inr ⟨⟨.undeclared name position, ?_⟩, by simp [SymbolTable.constant?, found]⟩
      rw [expression, nameValue]
      refine bind_of_error _ (ask_of_error ?_)
      simp [SymbolTable.constant, SymbolTable.declared, found]
  | some entry =>
      cases isConstant : entry.constant with
      | none =>
          refine .inr ⟨⟨.notConstant (.ident name) position, ?_⟩,
            by simp [SymbolTable.constant?, found, isConstant]⟩
          rw [expression, nameValue]
          refine bind_of_error _ (ask_of_error ?_)
          simp [SymbolTable.constant, SymbolTable.declared, found, isConstant]
      | some value =>
          refine .inl ⟨value, ?_, by simp [SymbolTable.constant?, found, isConstant],
            by simp [Expr.integer, SymbolTable.constant?, found, isConstant]⟩
          have isEntry : state.symbols.constant name position = .ok entry := by
            simp [found, isConstant]
          rw [expression, nameValue, bind_of_ok _ (ask_of_ok isEntry), isConstant]
          rfl

theorem toInt_eq_zero {value : Int32} : value.toInt = 0 ↔ value = 0 := by
  rw [← Int32.toInt_inj]
  rfl

theorem decides_binary {op : BinaryOp} {left right : Expr} {position : Position}
    (arithmetic : op.isArithmetic) (onLeft : Decides left state) (onRight : Decides right state) :
    Decides (.binary op left right position) state := by
  rw [Decides, Expr.isConstant_binary_iff]
  rcases onLeft with ⟨first, isFirst, leftConstant, firstValue⟩ | ⟨⟨error, isError⟩, notConstant⟩
  · rcases onRight with ⟨second, isSecond, rightConstant, secondValue⟩ |
        ⟨⟨error, isError⟩, notConstant⟩
    · rw [← secondValue, ne_eq, toInt_eq_zero]
      by_cases divides : op.divides ∧ second = 0
      · refine .inr ⟨⟨.notConstant .divisionByZero position, ?_⟩,
          fun all => all.2.2 divides.1 divides.2⟩
        rw [expression, bind_of_ok _ isFirst, bind_of_ok _ isSecond,
          if_pos ⟨rfl, divides.1, by rw [divides.2]⟩]
        rfl
      · obtain ⟨value, isValue, folded⟩ :=
          (op.emit_int arithmetic first second state.builder).resolve_left divides
        refine .inl ⟨value, ?_, ⟨leftConstant, rightConstant, by simpa using divides⟩, ?_⟩
        · rw [expression, bind_of_ok _ isFirst, bind_of_ok _ isSecond,
            if_neg (by simpa using divides)]
          change build _ state = _
          rw [build_eq, folded]
        · rw [Expr.integer, ← firstValue, ← secondValue]
          exact BinaryOp.toInt_compute? arithmetic isValue
    · refine .inr ⟨⟨error, ?_⟩, fun all => notConstant all.2.1⟩
      rw [expression, bind_of_ok _ isFirst, bind_of_error _ isError]
  · refine .inr ⟨⟨error, ?_⟩, fun all => notConstant all.1⟩
    rw [expression, bind_of_error _ isError]

theorem decides_negate {operand : Expr} {position : Position} (onOperand : Decides operand state) :
    Decides (.negate operand position) state := by
  rw [Decides, Expr.isConstant_negate_iff]
  rcases onOperand with ⟨value, isValue, isConstant, isInteger⟩ | ⟨⟨error, isError⟩, notConstant⟩
  · refine .inl ⟨0 - value, ?_, isConstant, ?_⟩
    · rw [expression, bind_of_ok _ isValue, build_eq]
      rfl
    · rw [Expr.integer, ← isInteger, Int32.toInt_sub, wrapped]
      simp
  · refine .inr ⟨⟨error, ?_⟩, notConstant⟩
    rw [expression, bind_of_error _ isError]

/-- By induction on the expression; calls and elements fail before anything is done. -/
theorem decides (fits : expr.Fits .arithmetic) (state : Lowering) : Decides expr state := by
  induction expr using Expr.rec (motive_2 := fun _ => True) with
  | ident name position => exact decides_ident name position
  | number value position =>
      exact .inl ⟨value, rfl, Expr.isConstant_number value, rfl⟩
  | literal text position => exact fits.elim
  | binary op left right position left_ih right_ih =>
      obtain ⟨arithmetic, leftFits, rightFits⟩ := by simpa [Expr.Fits] using fits
      exact decides_binary arithmetic (left_ih leftFits) (right_ih rightFits)
  | negate operand position ih => exact decides_negate (ih fits)
  | not operand position ih => simp [Expr.Fits] at fits
  | element array index position ih =>
      exact .inr ⟨⟨.notConstant .element position, rfl⟩, fun isConstant => isConstant _ (.all _)⟩
  | call name arguments position ih =>
      exact .inr ⟨⟨.notConstant .call position, rfl⟩, fun isConstant => isConstant _ (.all _)⟩
  | nil => trivial
  | cons first others first_ih others_ih => trivial

theorem constantValue_cases (fits : expr.Fits .arithmetic) (state : Lowering) :
    (∃ value, constantValue expr state = .ok value state ∧
      expr.IsConstant state.symbols.constant? ∧
      value.toInt = expr.integer state.symbols.constant?) ∨
    (∃ error, constantValue expr state = .error error state) ∧
      ¬ expr.IsConstant state.symbols.constant? := by
  rcases decides fits state with ⟨value, isValue, found⟩ | ⟨⟨error, isError⟩, notConstant⟩
  · refine .inl ⟨value, ?_, found⟩
    rw [constantValue, bind_of_ok _ isValue]
    rfl
  · refine .inr ⟨⟨error, ?_⟩, notConstant⟩
    rw [constantValue, bind_of_error _ isError]

end Lower

/-! ### A stage that is switched -/

/-- A translation that keeps the stage with its state, instead of being told at every step. -/
structure Staged where
  state : Lowering
  stage : Stage

namespace Staged

variable {α : Type}

def asking (step : Stage → Lower α) : EStateM SemanticError Staged α := fun staged =>
  match step staged.stage staged.state with
  | .ok a state => .ok a { staged with state }
  | .error error state => .error error { staged with state }

def within (stage : Stage) (step : EStateM SemanticError Staged α) :
    EStateM SemanticError Staged α := fun staged =>
  match step { staged with stage } with
  | .ok a after => .ok a { after with stage := staged.stage }
  | .error error after => .error error { after with stage := staged.stage }

def constantValue (expr : Expr) : EStateM SemanticError Staged Int32 := do
  match ← within .constant (asking fun stage => Lower.expression stage expr) with
  | .int value => return value
  | _ => throw (.notConstant (.expression expr.render) expr.position)

/-- Switching the stage comes to the same as being told it. -/
theorem constantValue_eq (expr : Expr) (staged : Staged) :
    constantValue expr staged =
      match Lower.constantValue expr staged.state with
      | .ok value state => .ok value { staged with state }
      | .error error state => .error error { staged with state } := by
  rw [constantValue, Lower.constantValue]
  cases isResult : Lower.expression .constant expr staged.state with
  | ok operand state =>
      have isWithin : within .constant (asking fun stage => Lower.expression stage expr) staged =
          .ok operand { staged with state } := by
        simp only [within, asking, isResult]
      rw [bind_of_ok _ isWithin, bind_of_ok _ isResult]
      cases operand <;> rfl
  | error error state =>
      have isWithin : within .constant (asking fun stage => Lower.expression stage expr) staged =
          .error error { staged with state } := by
        simp only [within, asking, isResult]
      rw [bind_of_error _ isWithin, bind_of_error _ isResult]

end Staged

/-- An expression that must be a constant has a value exactly if it is one, and then the value is the
integer that it is.  Whether or not there is a value, the translation goes on in the state it was in,
and, where the stage is switched, in the stage it was in. -/
theorem Lower.constantValue_exact {expr : Expr} (fits : expr.Fits .arithmetic) (state : Lowering)
    (stage : Stage) :
    (∀ value after, constantValue expr state = .ok value after ↔
      (expr.IsConstant state.symbols.constant? ∧
        value.toInt = expr.integer state.symbols.constant?) ∧ after = state) ∧
    (∀ error after, constantValue expr state = .error error after → after = state) ∧
    (∀ value after, Staged.constantValue expr ⟨state, stage⟩ = .ok value after ↔
      (expr.IsConstant state.symbols.constant? ∧
        value.toInt = expr.integer state.symbols.constant?) ∧ after = ⟨state, stage⟩) ∧
    ∀ error after, Staged.constantValue expr ⟨state, stage⟩ = .error error after →
      after = ⟨state, stage⟩ := by
  rw [Staged.constantValue_eq]
  rcases constantValue_cases fits state with
      ⟨found, isFound, isConstant, isInteger⟩ | ⟨⟨found, isFound⟩, notConstant⟩
  · rw [isFound]
    simp [isConstant, ← isInteger, Int32.toInt_inj, eq_comm]
  · rw [isFound]
    simp [notConstant, eq_comm]

theorem Lower.constantValue_exact_wraps :
    let entry : Entry := ⟨.integer, .address (.int 0), some 2147483647, ⟨1, 7⟩⟩
    let state : Lowering := { (default : Lowering) with symbols := ⟨[("n", entry)], [], [], none⟩ }
    let expr : Expr :=
      .binary .mul (.binary .div (.negate (.number 7 ⟨3, 2⟩) ⟨3, 1⟩) (.number 2 ⟨3, 8⟩) ⟨3, 4⟩)
        (.ident "n" ⟨3, 12⟩) ⟨3, 10⟩
    expr.Fits .arithmetic ∧ constantValue expr state = .ok (-2147483645) state := by
  intro entry state expr
  have isIdentifier : IsIdentifier "n" := ⟨⟨by decide, 'n', [], rfl, by decide, by simp⟩, by decide⟩
  have fits : expr.Fits .arithmetic :=
    ⟨fun _ => rfl, ⟨fun _ => rfl, trivial, trivial⟩, isIdentifier⟩
  have isConstant : expr.IsConstant state.symbols.constant? :=
    Expr.isConstant_binary_iff.2 ⟨Expr.isConstant_binary_iff.2
      ⟨Expr.isConstant_negate_iff.2 (Expr.isConstant_number 7), Expr.isConstant_number 2,
        fun _ => by decide⟩, Expr.isConstant_ident_iff.2 rfl, fun divides => by cases divides⟩
  exact ⟨fits, (((constantValue_exact fits state .running).1 _ _).2 ⟨⟨isConstant, by decide⟩, rfl⟩)⟩

end MiniPascal
