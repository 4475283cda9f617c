import Mathlib.Data.List.Forall2
import MiniPascal.Proofs.Machine.Steps

/-!
# What instructions do

One lemma for each instruction says what carrying it out amounts to once its operands are known.
-/

namespace MiniPascal.Machine

open IR (Operand)

/-! ### Lists of operands -/

section

variable {ε α β : Type} {f : α → Except ε β} {items : List α}

theorem mapM_eq_ok_iff {results : List β} : items.mapM f = .ok results ↔
    List.Forall₂ (fun item result => f item = .ok result) items results := by
  induction items generalizing results with
  | nil => simp [eq_comm]
  | cons first others ih =>
      rw [List.mapM_cons, List.forall₂_cons_left_iff]
      cases isFirst : f first with
      | error error => simp
      | ok result =>
          cases areOthers : others.mapM f <;> simp [← ih, areOthers, eq_comm]

theorem exists_of_mapM_eq_error {error : ε} (fails : items.mapM f = .error error) :
    ∃ item ∈ items, f item = .error error := by
  induction items with
  | nil => cases fails
  | cons first others ih =>
      rw [List.mapM_cons] at fails
      cases isFirst : f first with
      | error other =>
          rw [isFirst] at fails
          cases fails
          exact ⟨first, List.mem_cons_self, isFirst⟩
      | ok result =>
          cases areOthers : others.mapM f with
          | error other =>
              rw [isFirst, areOthers] at fails
              cases fails
              obtain ⟨item, isItem, isError⟩ := ih areOthers
              exact ⟨item, List.mem_cons_of_mem _ isItem, isError⟩
          | ok rest =>
              rw [isFirst, areOthers] at fails
              cases fails

end

/-! ### Operands -/

namespace Frame

variable {ir : IR.Module} {frame : Frame} {operand : Operand}

theorem int_eq_ok {value : Int32} :
    frame.int ir operand = .ok value ↔ frame.word ir operand = .ok (.int value) := by
  unfold int
  cases frame.word ir operand with
  | error halt => simp
  | ok word => cases word <;> simp

theorem pointer_eq_ok {pointer : Pointer} :
    frame.pointer ir operand = .ok pointer ↔ frame.word ir operand = .ok (.pointer pointer) := by
  unfold Frame.pointer
  cases frame.word ir operand with
  | error halt => simp
  | ok word => cases word <;> simp

structure Keeps (old : Frame) (bound : Nat) (new : Frame) : Prop where
  function : new.function = old.function
  arguments : new.arguments = old.arguments
  base : new.base = old.base
  depth : new.depth = old.depth
  result : new.result = old.result
  size : new.registers.size = old.registers.size
  registers : ∀ register < bound, new.registers[register]? = old.registers[register]?

theorem Keeps.refl (frame : Frame) (bound : Nat) : frame.Keeps bound frame :=
  ⟨rfl, rfl, rfl, rfl, rfl, rfl, fun _ _ => rfl⟩

theorem Keeps.trans {first second third : Frame} {bound more : Nat} (h₁ : first.Keeps bound second)
    (h₂ : second.Keeps more third) (le : bound ≤ more) : first.Keeps bound third where
  function := h₂.function.trans h₁.function
  arguments := h₂.arguments.trans h₁.arguments
  base := h₂.base.trans h₁.base
  depth := h₂.depth.trans h₁.depth
  result := h₂.result.trans h₁.result
  size := h₂.size.trans h₁.size
  registers register isOld :=
    (h₂.registers register (Nat.lt_of_lt_of_le isOld le)).trans (h₁.registers register isOld)

theorem keeps_define (frame : Frame) (register : IR.Register) (word : Word) :
    frame.Keeps register (frame.define register word).advance := by
  refine ⟨rfl, rfl, rfl, rfl, rfl, ?_, fun other isOld => ?_⟩
  · simp [define, advance]
  · simp only [define, advance, Array.getElem?_setIfInBounds]
    rw [if_neg (by omega)]

theorem keeps_advance (frame : Frame) (bound : Nat) : frame.Keeps bound frame.advance :=
  ⟨rfl, rfl, rfl, rfl, rfl, rfl, fun _ _ => rfl⟩

def take (frame : Frame) : Option IR.Register → Option Word → Frame
  | some register, some word => frame.define register word
  | _, _ => frame

end Frame

/-! ### Execution -/

namespace Run

variable {ir : IR.Module} (limits : Limits) {frame : Frame} (state : State) {result : IR.Register}

theorem assign_inside (inside : result < frame.registers.size) (word : Word) :
    assign frame result word = pure (frame.define result word) := if_pos inside

theorem assign_eq_ok {word : Word} {later : Frame} {after : State} :
    assign frame result word state = .ok later after ↔
      result < frame.registers.size ∧ frame.define result word = later ∧ state = after := by
  unfold assign
  by_cases inside : result < frame.registers.size <;> simp [inside]

theorem proceed_inside (inside : result < frame.registers.size) (word : Word) :
    proceed frame result word = pure (.next (frame.define result word).advance) := by
  simp only [proceed, assign_inside inside, pure_bind]

theorem proceed_outside (outside : ¬ result < frame.registers.size) (word : Word) :
    proceed frame result word = throw .panic := by
  rw [proceed, assign, if_neg outside]
  rfl

theorem execute_arith (op : IR.ArithOp) {left right : Operand} {x y : Int32}
    (isLeft : frame.int ir left = .ok x) (isRight : frame.int ir right = .ok y)
    (inside : result < frame.registers.size) :
    execute ir limits frame (.arith result op left right) state =
      match op.evaluate? x y with
      | some value => .ok (.next (frame.define result (.int value)).advance) state
      | none => .error (.failed (.divisionByZero (ir.functionName frame.function))) state := by
  simp only [execute, isLeft, isRight, ofExcept, proceed_inside inside, pure_bind]
  cases op.evaluate? x y <;> rfl

theorem execute_compare (predicate : IR.Predicate) {left right : Operand} {x y : Int32}
    (isLeft : frame.int ir left = .ok x) (isRight : frame.int ir right = .ok y)
    (inside : result < frame.registers.size) :
    execute ir limits frame (.compare result predicate left right) state =
      .ok (.next (frame.define result (.int (IR.boolToInt (predicate.evaluate x y)))).advance)
        state := by
  simp only [execute, isLeft, isRight, ofExcept, proceed_inside inside, pure_bind]
  rfl

theorem execute_alloca (inside : result < frame.registers.size) (name : String) :
    execute ir limits frame (.alloca result name) state =
      .ok (.next (frame.define result (.pointer (.slot state.stack.size))).advance)
        { state with stack := state.stack.push 0 } := by
  simp only [execute, proceed_inside inside]
  rfl

theorem execute_load_eq_proceed {operand : Operand} {pointer : Pointer}
    (isPointer : frame.pointer ir operand = .ok pointer) (result : IR.Register) :
    execute ir limits frame (.load result operand) state =
      match load ir frame.function pointer state with
      | .ok value state => proceed frame result (.int value) state
      | .error halt state => .error halt state := by
  simp only [execute, isPointer, ofExcept, pure_bind]
  rw [bind_run]
  cases load ir frame.function pointer state <;> rfl

theorem execute_load {operand : Operand} {pointer : Pointer}
    (isPointer : frame.pointer ir operand = .ok pointer) (inside : result < frame.registers.size) :
    execute ir limits frame (.load result operand) state =
      match load ir frame.function pointer state with
      | .ok value state => .ok (.next (frame.define result (.int value)).advance) state
      | .error halt state => .error halt state := by
  simp only [execute_load_eq_proceed limits state isPointer, proceed_inside inside]
  rfl

theorem execute_store {source target : Operand} {value : Int32} {pointer : Pointer}
    (isValue : frame.int ir source = .ok value)
    (isPointer : frame.pointer ir target = .ok pointer) :
    execute ir limits frame (.store source target) state =
      match store ir frame.function pointer value state with
      | .ok _ state => .ok (.next frame.advance) state
      | .error halt state => .error halt state := by
  simp only [execute, isValue, isPointer, ofExcept, pure_bind]
  rw [bind_run]
  cases store ir frame.function pointer value state <;> rfl

theorem execute_element {base index : Operand} {id : IR.GlobalId} {start : Int} {value : Int32}
    (isBase : frame.pointer ir base = .ok (.global id start))
    (isIndex : frame.int ir index = .ok value) (inside : result < frame.registers.size) :
    execute ir limits frame (.element result base index) state =
      .ok (.next (frame.define result (.pointer (.global id (start + value.toInt)))).advance)
        state := by
  simp only [execute, isBase, isIndex, ofExcept, proceed_inside inside, pure_bind]
  rfl

theorem execute_jump (target : IR.BlockId) :
    execute ir limits frame (.jump target) state = .ok (.next (frame.jump target)) state := rfl

theorem execute_branch {condition : Operand} {value : Int32}
    (isValue : frame.int ir condition = .ok value) (holds fails : IR.BlockId) :
    execute ir limits frame (.branch condition holds fails) state =
      .ok (.next (frame.jump (if value ≠ 0 then holds else fails))) state := by
  simp only [execute, isValue, ofExcept, pure_bind]
  rfl

theorem returnFrom_caller {caller : Frame} {callers : List Frame} {value : Option Word}
    (isCaller : state.callers = caller :: callers)
    (agrees : frame.result.isSome → value.isSome)
    (inside : ∀ register, frame.result = some register → register < caller.registers.size) :
    returnFrom ir frame value state =
      .ok (.next (caller.take frame.result value))
        { state.dropSlots frame.base with callers := callers } := by
  simp only [returnFrom, State.dropSlots, isCaller]
  cases isResult : frame.result with
  | none => rfl
  | some register =>
      cases value with
      | none => simp [isResult] at agrees
      | some word =>
          simp only [assign_inside (inside register isResult)]
          rfl

theorem returnFrom_done {value : Option Word} (noCaller : state.callers = []) :
    returnFrom ir frame value state = .ok (.done value) (state.dropSlots frame.base) := by
  simp only [returnFrom, State.dropSlots, noCaller]

theorem execute_ret {operand : Option Operand} {value : Option Word}
    (isValue : match operand, value with
      | none, none => True
      | some operand, some word => frame.word ir operand = .ok word
      | _, _ => False) :
    execute ir limits frame (.ret operand) state = returnFrom ir frame value state := by
  cases operand with
  | none =>
      cases value with
      | none => rfl
      | some word => exact isValue.elim
  | some operand =>
      cases value with
      | none => exact isValue.elim
      | some word =>
          simp only at isValue
          simp only [execute, isValue, ofExcept, pure_bind]

def entryFrame (function : IR.Function) (id : IR.FunctionId) (arguments : List Word) (base depth : Nat)
    (result : Option IR.Register) : Frame where
  function := id
  block := ⟨id, 0⟩
  next := 0
  registers := Array.replicate function.registers none
  arguments := arguments.toArray
  base := base
  depth := depth
  result := result

theorem execute_call {callee : IR.FunctionId} {function : IR.Function} {operands : List Operand}
    {words : List Word} (result : Option IR.Register)
    (isFunction : ir.functions[callee]? = some function) (hasBody : function.isDeclaration = false)
    (areWords : List.Forall₂ (fun operand word => frame.word ir operand = .ok word) operands words) :
    execute ir limits frame (.call result callee operands) state =
      if limits.depth ≤ frame.depth then .error (.failed (.callDepth limits.depth)) state
      else .ok (.next (entryFrame function callee words state.stack.size (frame.depth + 1) result))
        { state with callers := frame.advance :: state.callers } := by
  simp only [execute, mapM_eq_ok_iff.2 areWords, ofExcept, pure_bind, call, isFunction, hasBody]
  by_cases isDeep : limits.depth ≤ frame.depth
  · simp only [if_pos isDeep]
    rfl
  · simp only [if_neg isDeep]
    rfl

theorem execute_callExternal {callee : IR.FunctionId} {function : IR.Function}
    {operands : List Operand} {words : List Word} {result : Option IR.Register}
    (inside : ∀ register, result = some register → register < frame.registers.size)
    (isFunction : ir.functions[callee]? = some function) (noBody : function.isDeclaration = true)
    (areWords : List.Forall₂ (fun operand word => frame.word ir operand = .ok word) operands words) :
    execute ir limits frame (.call result callee operands) state =
      match callExternal ir callee words state with
      | .ok value state => .ok (.next (match result with
          | some register => (frame.define register value).advance
          | none => frame.advance)) state
      | .error halt state => .error halt state := by
  simp only [execute, mapM_eq_ok_iff.2 areWords, ofExcept, pure_bind, call, isFunction, noBody, if_true]
  rw [bind_run, bind_run]
  cases callExternal ir callee words state with
  | error halt state => rfl
  | ok value state =>
      cases result with
      | none => rfl
      | some register =>
          simp only [proceed_inside (inside register rfl)]
          rfl

end Run

end MiniPascal.Machine
